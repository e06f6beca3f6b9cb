import AuthDict.Proofs.Dictionary.Lookups
import AuthDict.Proofs.Query.Staleness
import AuthDict.Proofs.Schedule

/-!
# Enquiries

An enquiry is a call that looks up several keys, broken up into its steps. It derives the labels of
the keys one after the other, opens the querier or the pool, asks it once for all paths, and resolves
the keys in order. In between, other calls derive labels through the same cache and change the router
and the service in any way: they write tries and elements, refresh queriers, or drop a pool. A
querier that is dropped after it was opened still answers, which is a run in which others put it back.

An enquiry that is not disturbed does what `Dictionary.queryMany` does. Whatever the other calls do,
its paths are of one trie, and each of its answers is the one of a query of that key which is
answered from the same trie and reads the same element.
-/
namespace AuthDict

namespace Enquiry

inductive Stage where
  /-- The labels of some keys are left to derive. -/
  | labelling (left : List Bytes) (derived : List DerivedLabel)
  | asking (derived : List DerivedLabel)
  /-- Some keys are left to resolve, and the answers to those before them are known. -/
  | resolving (left : List Bytes) (derived : List DerivedLabel) (paths : List LookupPath)
      (answers : List Answer)
  | returned (result : Except Error (List Answer))

inductive Move where
  /-- The enquiry takes its next step. -/
  | advance
  /-- Other calls ask for labels, and leave the router and the service in any state. -/
  | others (asked : List Bytes) (router : Router) (service : Service)

end Enquiry

/-- An enquiry with the handle and the service that it finds. The trie that has served its lookup is
kept, and so is the service that each key was resolved in; no step depends on them. -/
structure Enquiry where
  keys : List Bytes
  pick : UInt8
  dictionary : Dictionary
  service : Service
  stage : Enquiry.Stage
  served : Option (Option Trie) := none
  seen : List Service := []

namespace Enquiry

open Dictionary

variable {α : Type} {d : Dictionary} {s : Service} {keys : List Bytes} {pick : UInt8}
  {e e' : Enquiry}

/-- An enquiry that has taken no step yet. -/
def called (d : Dictionary) (s : Service) (keys : List Bytes) (pick : UInt8) : Enquiry :=
  { keys, pick, dictionary := d, service := s, stage := .labelling keys [] }

/-- Does one thing and goes on, or returns its error. -/
def goOn (e : Enquiry) (x : Action (Dictionary × Service) α) (next : α → Stage) : Enquiry :=
  let (r, (dictionary, service)) := x (e.dictionary, e.service)
  { e with
    dictionary, service
    stage := match r with
      | .ok a => next a
      | .error err => .returned (.error err) }

def advance? (e : Enquiry) : Option Enquiry :=
  match e.stage with
  | .labelling (key :: left) derived =>
    some (e.goOn (deriveLabel key) fun l => .labelling left (derived ++ [l]))
  | .labelling [] derived => some (e.goOn (onRouter Router.ensureOpen) fun _ => .asking derived)
  | .asking derived =>
    let served := (onRouter (Router.serve · e.pick) (e.dictionary, e.service)).1.toOption
    some (({ e with served } : Enquiry).goOn
      (onRouter (Router.lookupMany · (derived.map (·.label)) e.pick))
      (.resolving e.keys derived · []))
  | .resolving (key :: left) (derived :: rest) (path :: paths) answers =>
    let seen := e.seen ++ [e.service]
    some (({ e with seen } : Enquiry).goOn (onService (resolve key path derived.proof))
      fun a => .resolving left rest paths (answers ++ [a]))
  | .resolving _ _ _ answers => some { e with stage := .returned (.ok answers) }
  | .returned _ => none

/-- Other calls through the same handle: its cache is changed by the labels they ask for. -/
def disturbed (e : Enquiry) (asked : List Bytes) (router : Router) (service : Service) : Enquiry :=
  { e with
    dictionary := { e.dictionary with
      cache := (e.dictionary.cache.deriveAll e.dictionary.secret asked).2, router }
    service }

def next? (e : Enquiry) : Move → Option Enquiry
  | .advance => e.advance?
  | .others asked router service => some (e.disturbed asked router service)

/-- The enquiry after some moves. -/
abbrev run? (e : Enquiry) (moves : List Move) : Option Enquiry :=
  Schedule.play? next? (fun _ _ => true) e moves

theorem goOn_ok {x : Action (Dictionary × Service) α} {a : α}
    (h : x (e.dictionary, e.service) = (.ok a, (d, s))) (next : α → Stage) :
    e.goOn x next = { e with dictionary := d, service := s, stage := next a } := by
  simp only [goOn, h]

theorem goOn_error {x : Action (Dictionary × Service) α} {err : Error}
    (h : x (e.dictionary, e.service) = (.error err, (d, s))) (next : α → Stage) :
    e.goOn x next =
      { e with dictionary := d, service := s, stage := .returned (.error err) } := by
  simp only [goOn, h]

/-- What an enquiry has returned. -/
def Stage.answers? : Stage → Option (List Answer)
  | returned (.ok answers) => some answers
  | _ => none

theorem Stage.eq_of_answers? {stage : Stage} {answers : List Answer}
    (h : stage.answers? = some answers) : stage = .returned (.ok answers) := by
  cases stage with
  | returned result =>
    cases result with
    | error err => contradiction
    | ok found =>
      cases h
      rfl
  | _ => contradiction

/-- A resolving enquiry has all of the next key, or it returns. -/
theorem resolving_cases (left : List Bytes) (derived : List DerivedLabel)
    (paths : List LookupPath) :
    (∃ key left' l derived' path paths', left = key :: left' ∧ derived = l :: derived' ∧
      paths = path :: paths') ∨
    ((∀ d, resolveAll d left derived paths = pure []) ∧
      ∀ (e : Enquiry) answers, e.stage = .resolving left derived paths answers →
        e.advance? = some { e with stage := .returned (.ok answers) }) := by
  cases left with
  | nil => exact .inr ⟨fun _ => rfl, fun e answers h => by simp only [advance?, h]⟩
  | cons key left =>
    cases derived with
    | nil => exact .inr ⟨fun _ => rfl, fun e answers h => by simp only [advance?, h]⟩
    | cons l derived =>
      cases paths with
      | nil => exact .inr ⟨fun _ => rfl, fun e answers h => by simp only [advance?, h]⟩
      | cons path paths => exact .inl ⟨key, left, l, derived, path, paths, rfl, rfl, rfl⟩

/-- What is left to do. -/
def Stage.rest (keys : List Bytes) (pick : UInt8) :
    Stage → Action (Dictionary × Service) (List Answer)
  | labelling left derived => do
    let derived := derived ++ (← deriveLabels left)
    onRouter Router.ensureOpen
    let paths ← onRouter (Router.lookupMany · (derived.map (·.label)) pick)
    onService fun d => resolveAll d keys derived paths
  | asking derived => do
    let paths ← onRouter (Router.lookupMany · (derived.map (·.label)) pick)
    onService fun d => resolveAll d keys derived paths
  | resolving left derived paths answers => do
    return answers ++ (← onService fun d => resolveAll d left derived paths)
  | returned result => Action.lift result

/-- The result of an enquiry that is not disturbed from now on, and what it leaves. -/
def outcome (e : Enquiry) : Except Error (List Answer) × Dictionary × Service :=
  e.stage.rest e.keys e.pick (e.dictionary, e.service)

theorem outcome_goOn (x : Action (Dictionary × Service) α) (next : α → Stage) :
    (e.goOn x next).outcome =
      (x >>= fun a => (next a).rest e.keys e.pick) (e.dictionary, e.service) := by
  rcases hx : x (e.dictionary, e.service) with ⟨err | a, d', s'⟩
  · rw [goOn_error hx, Action.bind_error hx]
    rfl
  · rw [goOn_ok hx, Action.bind_ok hx]
    rfl

/-- A step of the enquiry does not change how it will end. -/
theorem outcome_advance (h : e.advance? = some e') : e'.outcome = e.outcome := by
  obtain ⟨keys, pick, d, s, stage, served, seen⟩ := e
  cases stage with
  | labelling left derived =>
    cases left with
    | nil =>
      cases h
      refine (outcome_goOn _ _).trans ?_
      simp only [outcome, Stage.rest, deriveLabels, pure_bind, List.append_nil]
    | cons key left =>
      cases h
      refine (outcome_goOn _ _).trans ?_
      simp only [outcome, Stage.rest, deriveLabels, bind_assoc, pure_bind, List.append_assoc,
        List.singleton_append]
  | asking derived =>
    cases h
    refine (outcome_goOn _ _).trans ?_
    simp only [outcome, Stage.rest, List.nil_append, bind_pure]
  | resolving left derived paths answers =>
    rcases resolving_cases left derived paths with
      ⟨key, left, l, derived, path, paths, rfl, rfl, rfl⟩ | ⟨hnone, hend⟩
    · cases h
      refine (outcome_goOn _ _).trans ?_
      simp only [outcome, Stage.rest, resolveAll, onService_bind, onService_pure, bind_assoc,
        pure_bind, List.append_assoc, List.singleton_append]
    · obtain rfl := Option.some.inj ((hend _ answers rfl).symm.trans h)
      simp only [outcome, Stage.rest, hnone, onService_pure, pure_bind, List.append_nil]
      rfl
  | returned result => contradiction

theorem outcome_called (d : Dictionary) (s : Service) (keys : List Bytes) (pick : UInt8) :
    (called d s keys pick).outcome = queryMany keys pick (d, s) := by
  have hopen (labels : List Label) :
      (onRouter Router.ensureOpen >>= fun _ => onRouter (Router.lookupMany · labels pick)) =
        onRouter (Router.lookupMany · labels pick) := by
    have hlookup : (fun id => Router.ensureOpen id >>= fun _ => Router.lookupMany id labels pick) =
        (Router.lookupMany · labels pick) := by
      funext id
      simp only [Router.lookupMany, ← bind_assoc, Router.ensureOpen_serve]
    exact (onRouter_bind Router.ensureOpen fun _ => (Router.lookupMany · labels pick)).symm.trans
      (congrArg onRouter hlookup)
  simp only [outcome, called, Stage.rest, queryMany, List.nil_append, ← bind_assoc, hopen]

/-- Steps of the enquiry alone end as `queryMany` does. -/
theorem outcome_run? {moves : List Move} (hrun : e.run? moves = some e')
    (halone : ∀ m ∈ moves, m = .advance) : e'.outcome = e.outcome := by
  induction moves generalizing e with
  | nil =>
    cases hrun
    rfl
  | cons m moves ih =>
    obtain ⟨hm, hmoves⟩ := List.forall_mem_cons.1 halone
    subst hm
    obtain ⟨e₁, hstep, hrest⟩ := Option.bind_eq_some_iff.1 hrun
    exact (ih hrest hmoves).trans (outcome_advance hstep)

/-- Some steps of the enquiry alone lead to its end. -/
def Returns (e : Enquiry) : Prop :=
  ∃ n e' r, e.run? (List.replicate n .advance) = some e' ∧ e'.stage = .returned r

theorem Returns.of_stage {r : Except Error (List Answer)} (h : e.stage = .returned r) : e.Returns :=
  ⟨0, e, r, rfl, h⟩

theorem Returns.of_advance (hstep : e.advance? = some e') (h : e'.Returns) : e.Returns := by
  obtain ⟨n, e₁, r, hrun, hend⟩ := h
  refine ⟨n + 1, e₁, r, ?_, hend⟩
  exact Option.bind_eq_some_iff.2 ⟨e', hstep, hrun⟩

theorem Returns.of_goOn {x : Action (Dictionary × Service) α} {next : α → Stage}
    (h : ∀ a d s, Returns { e with dictionary := d, service := s, stage := next a }) :
    (e.goOn x next).Returns := by
  rcases hx : x (e.dictionary, e.service) with ⟨err | a, d, s⟩
  · rw [goOn_error hx]
    exact .of_stage rfl
  · rw [goOn_ok hx]
    exact h a d s

theorem returns_resolving {left : List Bytes} {derived : List DerivedLabel}
    {paths : List LookupPath} {answers : List Answer}
    (h : e.stage = .resolving left derived paths answers) : e.Returns := by
  induction left generalizing e derived paths answers with
  | nil =>
    have hstep : e.advance? = some { e with stage := .returned (.ok answers) } := by
      simp only [advance?, h]
    exact .of_advance hstep (.of_stage rfl)
  | cons key left ih =>
    rcases resolving_cases (key :: left) derived paths with
      ⟨key, left, l, derived, path, paths, hleft, rfl, rfl⟩ | ⟨-, hend⟩
    · obtain ⟨rfl, rfl⟩ := List.cons.inj hleft
      have hstep : e.advance? = some (({ e with seen := e.seen ++ [e.service] } : Enquiry).goOn
          (onService (resolve key path l.proof))
          fun a => .resolving left derived paths (answers ++ [a])) := by
        simp only [advance?, h]
      exact .of_advance hstep (.of_goOn fun _ _ _ => ih rfl)
    · exact .of_advance (hend e answers h) (.of_stage rfl)

theorem returns_asking {derived : List DerivedLabel} (h : e.stage = .asking derived) :
    e.Returns := by
  have hstep : ∃ served, e.advance? = some (({ e with served } : Enquiry).goOn
      (onRouter (Router.lookupMany · (derived.map (·.label)) e.pick))
      (.resolving e.keys derived · [])) := by
    simp only [advance?, h]
    exact ⟨_, rfl⟩
  obtain ⟨served, hstep⟩ := hstep
  exact .of_advance hstep (.of_goOn fun _ _ _ => returns_resolving rfl)

theorem returns_labelling {left : List Bytes} {derived : List DerivedLabel}
    (h : e.stage = .labelling left derived) : e.Returns := by
  induction left generalizing e derived with
  | nil =>
    have hstep : e.advance? =
        some (e.goOn (onRouter Router.ensureOpen) fun _ => .asking derived) := by
      simp only [advance?, h]
    exact .of_advance hstep (.of_goOn fun _ _ _ => returns_asking rfl)
  | cons key left ih =>
    have hstep : e.advance? =
        some (e.goOn (deriveLabel key) fun l => .labelling left (derived ++ [l])) := by
      simp only [advance?, h]
    exact .of_advance hstep (.of_goOn fun _ _ _ => ih rfl)

/-- An enquiry returns, whatever others have done before, once they leave it alone. -/
theorem returns (e : Enquiry) : e.Returns := by
  cases hstage : e.stage with
  | labelling left derived => exact returns_labelling hstage
  | asking derived => exact returns_asking hstage
  | resolving left derived paths answers => exact returns_resolving hstage
  | returned result => exact .of_stage hstage

/-- A call that nobody disturbs does what `queryMany` does. -/
theorem exists_run_queryMany (d : Dictionary) (s : Service) (keys : List Bytes) (pick : UInt8) :
    ∃ n e, (called d s keys pick).run? (List.replicate n .advance) = some e ∧
      e.stage = .returned (queryMany keys pick (d, s)).1 ∧
      (e.dictionary, e.service) = (queryMany keys pick (d, s)).2 := by
  obtain ⟨n, e, r, hrun, hend⟩ := (called d s keys pick).returns
  have houtcome := outcome_run? hrun fun m hm => List.eq_of_mem_replicate hm
  rw [outcome_called, outcome, hend] at houtcome
  rw [← houtcome]
  exact ⟨n, e, hrun, hend, rfl⟩

/-- The answers to some keys, each of which was resolved in its own service. -/
structure Answered (d : Dictionary) (t : Option Trie) (keys : List Bytes) (seen : List Service)
    (answers : List Answer) : Prop where
  length : seen.length = keys.length
  resolved : List.zipWith (d.resolvedIn t) keys seen = answers.map .ok

theorem Answered.concat {t : Option Trie} {seen : List Service} {answers : List Answer} {key : Bytes}
    {a : Answer} (h : Answered d t keys seen answers) (ha : d.resolvedIn t key s = .ok a) :
    Answered d t (keys ++ [key]) (seen ++ [s]) (answers ++ [a]) where
  length := by rw [List.length_append, List.length_append, h.length]; rfl
  resolved := by
    rw [List.zipWith_append h.length.symm, h.resolved, List.map_append]
    simp only [List.zipWith_cons_cons, List.zipWith_nil_right, ha, List.map_cons, List.map_nil]

/-- How far the stages of an enquiry have come with its keys. Once a trie has served the lookup, all
labels, paths and answers belong to the keys in their order. -/
inductive Follows (d : Dictionary) :
    List Bytes → Option (Option Trie) → List Service → Stage → Prop
  | labelling (done left : List Bytes) :
      Follows d (done ++ left) none [] (.labelling left (done.map d.secret.derive))
  | asking (keys : List Bytes) : Follows d keys none [] (.asking (keys.map d.secret.derive))
  | unserved (keys : List Bytes) (err : Error) : Follows d keys none [] (.returned (.error err))
  | resolving {t : Option Trie} {done : List Bytes} (left : List Bytes) {seen : List Service}
      {answers : List Answer} : Answered d t done seen answers →
      Follows d (done ++ left) (some t) seen
        (.resolving left (left.map d.secret.derive)
          (left.map fun key => Querier.answer t (d.secret.label key)) answers)
  | answered {t : Option Trie} {keys : List Bytes} {seen : List Service} {answers : List Answer} :
      Answered d t keys seen answers → Follows d keys (some t) seen (.returned (.ok answers))
  | failed {t : Option Trie} {done : List Bytes} {key : Bytes} (left : List Bytes)
      {seen : List Service} {s : Service} {answers : List Answer} {err : Error} :
      Answered d t done seen answers → d.resolvedIn t key s = .error err →
      Follows d (done ++ key :: left) (some t) (seen ++ [s]) (.returned (.error err))

namespace Follows

variable {served : Option (Option Trie)} {t : Option Trie} {seen : List Service}
  {answers : List Answer} {err : Error}

theorem answered_of_ok (h : Follows d keys served seen (.returned (.ok answers))) :
    ∃ t, served = some t ∧ Answered d t keys seen answers := by
  cases h with
  | answered hanswered => exact ⟨_, rfl, hanswered⟩

/-- The last key that was resolved is the one whose resolution has failed. -/
theorem failed_of_error (h : Follows d keys (some t) seen (.returned (.error err))) :
    ∃ done key left before s answers, keys = done ++ key :: left ∧ seen = before ++ [s] ∧
      Answered d t done before answers ∧ d.resolvedIn t key s = .error err := by
  cases h with
  | failed left hanswered hresolved =>
    exact ⟨_, _, left, _, _, _, rfl, rfl, hanswered, hresolved⟩

end Follows

/-- An enquiry of the keys through the handle, whose cache has no wrong label. -/
structure Faithful (d : Dictionary) (keys : List Bytes) (e : Enquiry) : Prop where
  asked : e.keys = keys
  same : e.dictionary = { d with cache := e.dictionary.cache, router := e.dictionary.router }
  cache : e.dictionary.cache.Sound d.secret
  follows : Follows d keys e.served e.seen e.stage

theorem faithful_called (hcache : d.cache.Sound d.secret) (s : Service) (keys : List Bytes)
    (pick : UInt8) : Faithful d keys (called d s keys pick) :=
  ⟨rfl, rfl, hcache, .labelling [] keys⟩

theorem Faithful.disturbed (h : Faithful d keys e) (asked : List Bytes) (router : Router)
    (service : Service) : Faithful d keys (e.disturbed asked router service) := by
  obtain ⟨hkeys, hsame, hcache, hfollows⟩ := h
  have hsecret : e.dictionary.secret = d.secret := by rw [hsame]
  refine ⟨hkeys, ?_, ?_, hfollows⟩
  · rw [Enquiry.disturbed, hsame]
  · rw [Enquiry.disturbed, hsecret]
    exact hcache.deriveAll asked

/-- What is to be shown of a step that does one thing. -/
theorem faithful_goOn {x : Action (Dictionary × Service) α} {next : α → Stage}
    (hkeys : e.keys = keys)
    (hsame : ∃ cache router, cache.Sound d.secret ∧
      (x (e.dictionary, e.service)).2.1 = { d with cache, router })
    (hok : ∀ a, (x (e.dictionary, e.service)).1 = .ok a → Follows d keys e.served e.seen (next a))
    (herror : ∀ err, (x (e.dictionary, e.service)).1 = .error err →
      Follows d keys e.served e.seen (.returned (.error err))) :
    Faithful d keys (e.goOn x next) := by
  obtain ⟨cache, router, hcache, hd⟩ := hsame
  rcases hx : x (e.dictionary, e.service) with ⟨err | a, d', s'⟩
  · rw [hx] at hd
    subst hd
    rw [goOn_error hx]
    exact ⟨hkeys, rfl, hcache, herror err (congrArg Prod.fst hx)⟩
  · rw [hx] at hd
    subst hd
    rw [goOn_ok hx]
    exact ⟨hkeys, rfl, hcache, hok a (congrArg Prod.fst hx)⟩

theorem follows_label {done left : List Bytes} {key : Bytes} :
    Follows d (done ++ key :: left) none []
      (.labelling left (done.map d.secret.derive ++ [d.secret.derive key])) := by
  have hfollows := Follows.labelling (d := d) (done ++ [key]) left
  rwa [List.append_assoc, List.singleton_append, List.map_append] at hfollows

/-- One trie serves the lookup of all labels, or the lookup fails. -/
theorem follows_asked (keys : List Bytes) (pick : UInt8) (st : Dictionary × Service) :
    let r := onRouter (Router.lookupMany · ((keys.map d.secret.derive).map (·.label)) pick) st
    let served := (onRouter (Router.serve · pick) st).1.toOption
    (∀ paths, r.1 = .ok paths →
      Follows d keys served [] (.resolving keys (keys.map d.secret.derive) paths [])) ∧
    ∀ err, r.1 = .error err → Follows d keys served [] (.returned (.error err)) := by
  have hpaths (t : Option Trie) :
      ((keys.map d.secret.derive).map (·.label)).map (Querier.answer t) =
        keys.map fun key => Querier.answer t (d.secret.label key) := by
    simp only [List.map_map, Function.comp_def, LabelSecret.label_derive]
  have hnone (t : Option Trie) : Answered d t [] [] [] := ⟨rfl, rfl⟩
  have hlookup : (onRouter
      (Router.lookupMany · ((keys.map d.secret.derive).map (·.label)) pick) st).1 =
        (onRouter (Router.serve · pick) st).1.map fun t =>
          keys.map fun key => Querier.answer t (d.secret.label key) := by
    simp only [← hpaths]
    exact congrArg Prod.fst (onRouter_serve_map _ pick st)
  dsimp only
  rw [hlookup]
  cases (onRouter (Router.serve · pick) st).1 with
  | error err => exact ⟨fun paths h => by contradiction, fun err' _ => .unserved keys err'⟩
  | ok t =>
    refine ⟨fun paths h => ?_, fun err h => by contradiction⟩
    obtain rfl := Except.ok.inj h
    exact .resolving keys (hnone t)

theorem Faithful.advance (h : Faithful d keys e) (hstep : e.advance? = some e') :
    Faithful d keys e' := by
  obtain ⟨keys', pick, d', s, stage, served, seen⟩ := e
  obtain ⟨hkeys, hsame, hcache, hfollows⟩ := h
  dsimp only at hkeys hsame hcache hfollows
  subst hkeys
  obtain ⟨cache, router, rfl⟩ : ∃ cache router, d' = { d with cache, router } := ⟨_, _, hsame⟩
  cases hfollows with
  | labelling done left =>
    cases left with
    | nil =>
      cases hstep
      rw [List.append_nil]
      exact faithful_goOn rfl ⟨cache, _, hcache, rfl⟩ (fun _ _ => .asking done)
        fun err _ => .unserved done err
    | cons key left =>
      cases hstep
      refine faithful_goOn rfl ⟨_, router, hcache.derive_snd key, rfl⟩ ?_ ?_
      · intro l hl
        rw [deriveLabel_of_sound hcache] at hl
        obtain rfl := Except.ok.inj hl
        exact follows_label
      · intro err herror
        rw [deriveLabel_of_sound hcache] at herror
        contradiction
  | asking =>
    cases hstep
    obtain ⟨hok, herror⟩ := follows_asked keys' pick ({ d with cache, router }, s)
    exact faithful_goOn rfl ⟨cache, _, hcache, rfl⟩ hok herror
  | unserved => contradiction
  | @resolving t done left seen answers hanswered =>
    cases left with
    | nil =>
      cases hstep
      rw [List.append_nil]
      exact ⟨rfl, rfl, hcache, .answered hanswered⟩
    | cons key left =>
      cases hstep
      have hresolved : (onService
          (resolve key (Querier.answer t (d.secret.label key)) (d.secret.derive key).proof)
          ({ d with cache, router }, s)).1 = d.resolvedIn t key s := by
        rw [resolvedIn, resolve_fst, onService, resolve_fst]
        rfl
      refine faithful_goOn rfl ⟨cache, router, hcache, rfl⟩ ?_ ?_
      · intro a ha
        have hfollows := Follows.resolving left (hanswered.concat (hresolved.symm.trans ha))
        rwa [List.append_assoc, List.singleton_append] at hfollows
      · intro err herror
        exact .failed left hanswered (hresolved.symm.trans herror)
  | answered => contradiction
  | failed => contradiction

theorem Faithful.run? (h : Faithful d keys e) {moves : List Move} (hrun : e.run? moves = some e') :
    Faithful d keys e' := by
  refine Schedule.play?_keeps (P := Faithful d keys) ?_ hrun h
  intro e₁ e₂ m _ hnext hfaithful
  cases m with
  | advance => exact hfaithful.advance hnext
  | others asked router service =>
    cases hnext
    exact hfaithful.disturbed asked router service

theorem path_of_resolvedIn {t : Option Trie} {key : Bytes} {a : Answer}
    (h : d.resolvedIn t key s = .ok a) : a.path = Querier.answer t (d.secret.label key) := by
  rw [resolvedIn, resolve_fst] at h
  split at h
  · rcases hread : d.readElement key s with err | found
    · rw [hread] at h
      contradiction
    · rw [hread] at h
      cases found with
      | none => contradiction
      | some element =>
        obtain rfl := Except.ok.inj h
        rfl
  · obtain rfl := Except.ok.inj h
    rfl

namespace Answered

variable {t : Option Trie} {seen : List Service} {answers : List Answer} {i : Nat} {key : Bytes}

theorem length_answers (h : Answered d t keys seen answers) : answers.length = keys.length := by
  have hlength := congrArg List.length h.resolved
  rw [List.length_zipWith, List.length_map, h.length, Nat.min_self] at hlength
  exact hlength.symm

/-- The answer to the key in some place. -/
theorem getElem? (h : Answered d t keys seen answers) (hkey : keys[i]? = some key) :
    ∃ a s, answers[i]? = some a ∧ seen[i]? = some s ∧ d.resolvedIn t key s = .ok a := by
  have hi : i < seen.length := h.length ▸ (List.getElem?_eq_some_iff.1 hkey).1
  have hseen : seen[i]? = some seen[i] := List.getElem?_eq_getElem hi
  have hresolved := congrArg (·[i]?) h.resolved
  simp only [List.getElem?_zipWith, hkey, hseen, List.getElem?_map] at hresolved
  obtain ⟨a, ha, hok⟩ := Option.map_eq_some_iff.1 hresolved.symm
  exact ⟨a, seen[i], ha, hseen, hok.symm⟩

theorem queryReturns (h : Answered d t keys seen answers) (hcache : d.cache.Reached d.secret)
    (hkey : keys[i]? = some key) : ∃ a s, answers[i]? = some a ∧ seen[i]? = some s ∧
      QueryReturns d t key s (.ok a) := by
  obtain ⟨a, s, ha, hs, hresolved⟩ := h.getElem? hkey
  have hquery := queryReturns_resolvedIn hcache t key s
  rw [hresolved] at hquery
  exact ⟨a, s, ha, hs, hquery⟩

theorem path_mem (h : Answered d t keys seen answers) {a : Answer} (ha : a ∈ answers) :
    ∃ key ∈ keys, a.path = Querier.answer t (d.secret.label key) := by
  obtain ⟨i, hi⟩ := List.mem_iff_getElem?.1 ha
  have hlt : i < keys.length := h.length_answers ▸ (List.getElem?_eq_some_iff.1 hi).1
  have hkey : keys[i]? = some keys[i] := List.getElem?_eq_getElem hlt
  obtain ⟨b, s, hb, -, hresolved⟩ := h.getElem? hkey
  obtain rfl := Option.some.inj (hi.symm.trans hb)
  exact ⟨_, List.mem_of_getElem? hkey, path_of_resolvedIn hresolved⟩

end Answered

/-- An enquiry through a handle with a reached cache, which returns after any moves of its own and of
others. Without others it returns what `queryMany` returns.

If it returns answers, one trie has served its lookup. There is one answer to each key, in order, and
all have the root and the epoch of that trie; each is what a query of its key returns that is served
from the same trie and reads the same element. If it fails after a trie has served its lookup, the
error is the one of such a query of some key, and such queries of all keys before it succeed. -/
theorem returned_as_queries (hcache : d.cache.Reached d.secret) {moves : List Move}
    (hrun : (called d s keys pick).run? moves = some e) {r : Except Error (List Answer)}
    (hend : e.stage = .returned r) :
    (∃ n e', (called d s keys pick).run? (List.replicate n .advance) = some e' ∧
      e'.stage = .returned (queryMany keys pick (d, s)).1 ∧
      (e'.dictionary, e'.service) = (queryMany keys pick (d, s)).2) ∧
    (∀ answers, r = .ok answers → ∃ t, e.served = some t ∧ answers.length = keys.length ∧
      (∀ a ∈ answers, a.path.root = Querier.rootOf t ∧ a.path.epoch = Querier.epochOf t) ∧
      ∀ (i : Nat) key, keys[i]? = some key → ∃ a s, answers[i]? = some a ∧ e.seen[i]? = some s ∧
        QueryReturns d t key s (.ok a)) ∧
    ∀ err t, r = .error err → e.served = some t → ∃ (i : Nat) (key : Bytes) (s : Service),
      keys[i]? = some key ∧ e.seen[i]? = some s ∧ QueryReturns d t key s (.error err) ∧
      ∀ j < i, ∀ key', keys[j]? = some key' → ∃ a s', e.seen[j]? = some s' ∧
        QueryReturns d t key' s' (.ok a) := by
  have hfollows := ((faithful_called hcache.sound s keys pick).run? hrun).follows
  rw [hend] at hfollows
  refine ⟨exists_run_queryMany d s keys pick, ?_, ?_⟩
  · intro answers hok
    subst hok
    obtain ⟨t, hserved, hanswered⟩ := hfollows.answered_of_ok
    refine ⟨t, hserved, hanswered.length_answers, ?_, ?_⟩
    · intro a ha
      obtain ⟨key, -, hpath⟩ := hanswered.path_mem ha
      rw [hpath, Querier.answer_root, Querier.answer_epoch]
      exact ⟨rfl, rfl⟩
    · intro i key hkey
      exact hanswered.queryReturns hcache hkey
  · intro err t herror hserved
    subst herror
    rw [hserved] at hfollows
    obtain ⟨done, key, left, before, s, answers, rfl, hseen, hanswered, hresolved⟩ :=
      hfollows.failed_of_error
    have hquery := queryReturns_resolvedIn hcache t key s
    rw [hresolved] at hquery
    rw [hseen]
    refine ⟨done.length, key, s, by simp, by simp [← hanswered.length], hquery, ?_⟩
    intro j hj key' hkey'
    rw [List.getElem?_append_left hj] at hkey'
    obtain ⟨a, s', -, hs', hquery'⟩ := hanswered.queryReturns hcache hkey'
    have hj' : j < before.length := hanswered.length ▸ hj
    exact ⟨a, s', by rw [List.getElem?_append_left hj', hs'], hquery'⟩

/-- A handle whose queriers read the backend for each lookup. -/
def sampleHandle : Dictionary where
  id := Block.zero 16
  config := { queryMode := .direct }
  secret := .plain (Block.zero 32)
  cache := .empty 1
  storage := 0
  queryStorage := 0
  registry := 0
  router := .pooled ⟨0, .direct, 2⟩
  updater := { config := {}, registry := 0, storage := 0 }
  scheduler := none

/-- The service after the insertion of one more key and a cycle. -/
def sampleCommitted (key : Bytes) (s : Service) : Service :=
  (sampleHandle.apply (sampleHandle.insert ⟨key, [0], Block.zero 32⟩ s).2).2

def sampleKeys : List Bytes := [[1], [2], [1]]

/-- The second key is inserted and a trie with it is saved just after the lookup. -/
def sampleMoves : List Move :=
  List.replicate 5 .advance ++
    [.others [[2]] sampleHandle.router (sampleCommitted [2] (sampleCommitted [1] {}))] ++
    List.replicate 4 .advance

theorem returned_as_queries_sampleMoves : ∃ e answers,
    (called sampleHandle (sampleCommitted [1] {}) sampleKeys 0).run? sampleMoves = some e ∧
      e.stage = .returned (.ok answers) ∧ answers.map Answer.isMember = [true, false, true] ∧
      ∃ t, e.served = some t ∧ ∀ (i : Nat) key, sampleKeys[i]? = some key →
        ∃ a s, answers[i]? = some a ∧ e.seen[i]? = some s ∧
          QueryReturns sampleHandle t key s (.ok a) := by
  have hend : ((called sampleHandle (sampleCommitted [1] {}) sampleKeys 0).run? sampleMoves).any
      (fun e => e.stage.answers?.any fun as => as.map Answer.isMember = [true, false, true]) := by
    decide +kernel
  obtain ⟨e, hrun, he⟩ := (Option.any_eq_true _ _).1 hend
  obtain ⟨answers, hanswers, hmembers⟩ := (Option.any_eq_true _ _).1 he
  have hstage := Stage.eq_of_answers? hanswers
  obtain ⟨-, hok, -⟩ := returned_as_queries (LabelCache.reached_empty 1 _) hrun hstage
  obtain ⟨t, hserved, -, -, hqueries⟩ := hok answers rfl
  exact ⟨e, answers, hrun, hstage, of_decide_eq_true hmembers, t, hserved, hqueries⟩

end Enquiry

end AuthDict
