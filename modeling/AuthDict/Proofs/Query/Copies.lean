import AuthDict.Proofs.Query.Loads

/-!
# Copies along a run

The queriers of a pool are refreshed one by one or all in turn, while tries are written behind them
and loads fail at any calls. Each cached querier has the trie that was loaded for it last: that is
the invariant of a run, and every event is a step that keeps it.
-/
namespace AuthDict

namespace Querier

theorem lookup_state (label : Label) (q : Querier) (b : Backends) :
    (Querier.lookup label (q, b)).2 = ({ q with served := q.served + 1 }, (q.current b).2) := by
  simp only [Querier.lookup, Action.bind_apply, serve]
  rcases q.current b with ⟨e | t, b'⟩ <;> rfl

theorem lookupMany_state (labels : List Label) (q : Querier) (b : Backends) :
    (Querier.lookupMany labels (q, b)).2 =
      ({ q with served := q.served + 1 }, (q.current b).2) := by
  simp only [Querier.lookupMany, Action.bind_apply, serve]
  rcases q.current b with ⟨e | t, b'⟩ <;> rfl

end Querier

namespace Staleness

/-- A pool with the backends that its queriers load from. -/
abbrev State := QuerierPool × Backends

inductive Event where
  | write (storage : StorageRef) (id : DictionaryId) (trie : Trie)
  | refresh (place : Nat)
  | refreshAll
  | lookup (place : Nat) (label : Label)
  | lookupMany (place : Nat) (labels : List Label)

/-- Refreshes the querier in a place. -/
def refreshAt (place : Nat) : Action State Unit := fun (p, b) =>
  match p.queriers[place]? with
  | none => (.ok (), (p, b))
  | some q =>
    match q.refresh b with
    | (.ok q, b) => (.ok (), ({ p with queriers := p.queriers.set place q }, b))
    | (.error e, b) => (.error e, (p, b))

/-- The state after the querier in a place was asked for something. -/
def asked {α : Type} (place : Nat) (x : Action (Querier × Backends) α) : State → State
  | (p, b) =>
    match p.queriers[place]? with
    | none => (p, b)
    | some q =>
      let (q, b) := (x (q, b)).2
      ({ p with queriers := p.queriers.set place q }, b)

section

variable {st : State} {place : Nat} {q q' : Querier} {b : Backends} {e : Error}

theorem refreshAt_of_none (h : st.1.queriers[place]? = none) :
    refreshAt place st = (.ok (), st) := by
  simp only [refreshAt, h]

theorem refreshAt_of_ok (h : st.1.queriers[place]? = some q) (hq : q.refresh st.2 = (.ok q', b)) :
    refreshAt place st = (.ok (), ({ st.1 with queriers := st.1.queriers.set place q' }, b)) := by
  simp only [refreshAt, h, hq]

theorem refreshAt_of_error (h : st.1.queriers[place]? = some q)
    (hq : q.refresh st.2 = (.error e, b)) : refreshAt place st = (.error e, (st.1, b)) := by
  simp only [refreshAt, h, hq]

theorem asked_of_none {α : Type} (x : Action (Querier × Backends) α)
    (h : st.1.queriers[place]? = none) : asked place x st = st := by
  simp only [asked, h]

theorem asked_of_some {α : Type} (x : Action (Querier × Backends) α)
    (h : st.1.queriers[place]? = some q) :
    asked place x st = ({ st.1 with queriers := st.1.queriers.set place (x (q, st.2)).2.1 },
      (x (q, st.2)).2.2) := by
  simp only [asked, h]

end

namespace Event

def next (st : State) : Event → State
  | write storage id trie => (st.1, st.2.written storage id trie)
  | refresh place => (refreshAt place st).2
  | refreshAll => (QuerierPool.refreshAll st).2
  | lookup place label => asked place (Querier.lookup label) st
  | lookupMany place labels => asked place (Querier.lookupMany labels) st

end Event

def run (st : State) (events : List Event) : State := events.foldl Event.next st

/-- What the loads of an event bring the querier in a place. -/
def Event.loadedFor (s : PooledRouter) (id : DictionaryId) (place : Nat) (b : Backends) :
    Event → Option (Option Trie)
  | refresh i => if i = place then (b.loaded s.storage id 0).toOption else none
  | refreshAll => b.loadedInPass s.storage id place
  | _ => none

/-- The trie that was loaded last for the querier in a place, which is `t` until the first
refresh. -/
def lastLoad (s : PooledRouter) (id : DictionaryId) (place : Nat) :
    Option Trie → State → List Event → Option Trie
  | t, _, [] => t
  | t, st, e :: events =>
    lastLoad s id place ((e.loadedFor s id place st.2).getD t) (e.next st) events

variable {s : PooledRouter} {id : DictionaryId} {copies : Nat → Option Trie} {st : State}
  {place : Nat} {t : Option Trie}

/-- The queriers of a pool have the copies that are given for their places. -/
structure Tracks (s : PooledRouter) (id : DictionaryId) (copies : Nat → Option Trie)
    (p : QuerierPool) : Prop where
  length : p.queriers.length = s.size
  shows : ∀ place q, p.queriers[place]? = some q →
    q.index = place ∧ (⟨s.storage, s.mode, copies place⟩ : View).Shows id q

namespace Tracks

variable {p : QuerierPool} {q q' : Querier} {copies' : Nat → Option Trie}

theorem exists_querier (h : Tracks s id copies p) (hplace : place < s.size) :
    ∃ q, p.queriers[place]? = some q :=
  ⟨_, List.getElem?_eq_getElem (h.length ▸ hplace)⟩

theorem caches (h : Tracks s id copies p) (hmode : s.mode = .cached) :
    ∀ q ∈ p.queriers, q.Caches s.storage id := by
  intro q hq
  obtain ⟨place, hget⟩ := List.mem_iff_getElem?.1 hq
  obtain ⟨-, hshows⟩ := h.shows place q hget
  exact ⟨hshows.storage, hshows.id, hshows.mode.trans hmode⟩

theorem direct (h : Tracks s id copies p) (hmode : s.mode = .direct) :
    ∀ q ∈ p.queriers, q.mode = .direct := by
  intro q hq
  obtain ⟨place, hget⟩ := List.mem_iff_getElem?.1 hq
  exact (h.shows place q hget).2.mode.trans hmode

theorem congr (h : Tracks s id copies p) (hcopies : ∀ k < s.size, copies' k = copies k) :
    Tracks s id copies' p := by
  refine ⟨h.length, fun k q hget => ?_⟩
  rw [hcopies k (h.length ▸ (List.getElem?_eq_some_iff.1 hget).1)]
  exact h.shows k q hget

/-- Copies are of no account in direct mode. -/
theorem of_direct (h : Tracks s id copies p) (hmode : s.mode = .direct)
    (copies' : Nat → Option Trie) : Tracks s id copies' p := by
  refine ⟨h.length, fun k q hget => ?_⟩
  obtain ⟨hindex, hshows⟩ := h.shows k q hget
  refine ⟨hindex, hshows.id, hshows.storage, hshows.mode, fun hc => ?_⟩
  rw [hshows.mode, hmode] at hc
  contradiction

/-- One querier is replaced, and the copies of the others are as before. -/
theorem set (h : Tracks s id copies p) (hget : p.queriers[place]? = some q)
    (hindex : q'.index = place)
    (hshows : (⟨s.storage, s.mode, copies' place⟩ : View).Shows id q')
    (hothers : ∀ k, k ≠ place → copies' k = copies k) :
    Tracks s id copies' { p with queriers := p.queriers.set place q' } := by
  refine ⟨by rw [List.length_set, h.length], fun k q₁ hk => ?_⟩
  by_cases hne : k = place
  · subst hne
    rw [List.getElem?_set_self (List.getElem?_eq_some_iff.1 hget).1] at hk
    obtain rfl := Option.some.inj hk
    exact ⟨hindex, hshows⟩
  · rw [List.getElem?_set_ne (Ne.symm hne)] at hk
    rw [hothers k hne]
    exact h.shows k q₁ hk

/-- Lookups are counted, and nothing else. -/
theorem asked {α : Type} {x : Action (Querier × Backends) α} (h : Tracks s id copies st.1)
    (hx : ∀ q b, (x (q, b)).2.1 = { q with served := q.served + 1 }) (place : Nat) :
    Tracks s id copies (asked place x st).1 := by
  cases hget : st.1.queriers[place]? with
  | none => rwa [asked_of_none x hget]
  | some q =>
    obtain ⟨hindex, hshows⟩ := h.shows place q hget
    rw [asked_of_some x hget, hx q st.2]
    exact h.set hget hindex ⟨hshows.id, hshows.storage, hshows.mode, hshows.copy⟩
      fun _ _ => rfl

theorem refreshAt (h : Tracks s id copies st.1) (i : Nat) :
    Tracks s id (fun place => ((Event.refresh i).loadedFor s id place st.2).getD (copies place))
      (refreshAt i st).2.1 := by
  have hothers (k : Nat) (hk : k ≠ i) :
      ((Event.refresh i).loadedFor s id k st.2).getD (copies k) = copies k := by
    rw [Event.loadedFor, if_neg (Ne.symm hk)]
    rfl
  cases hget : st.1.queriers[i]? with
  | none =>
    -- There is no querier in the place, so no copy is tracked there.
    rw [refreshAt_of_none hget]
    refine h.congr fun k hk => hothers k ?_
    rintro rfl
    obtain ⟨q, hq⟩ := h.exists_querier hk
    rw [hget] at hq
    contradiction
  | some q =>
    obtain ⟨hindex, hshows⟩ := h.shows i q hget
    cases hmode : q.mode with
    | direct =>
      rw [refreshAt_of_ok hget (Querier.refresh_direct hmode st.2)]
      exact (h.set hget hindex hshows fun _ _ => rfl).of_direct (hshows.mode.symm.trans hmode) _
    | cached =>
      have hself : (Event.refresh i).loadedFor s id i st.2 =
          (st.2.loaded q.storage q.id 0).toOption := by
        rw [hshows.storage, hshows.id]
        exact if_pos rfl
      by_cases hup : (st.2.loaded q.storage q.id 0).isOk
      · rw [refreshAt_of_ok hget (Querier.refresh_of_isOk hmode hup)]
        refine h.set hget hindex ⟨hshows.id, hshows.storage, hshows.mode, fun _ => ?_⟩ hothers
        dsimp only
        rw [hself, Backends.loaded_of_isOk hup]
        rfl
      · rw [refreshAt_of_error hget (Querier.refresh_of_not_isOk hmode hup)]
        refine h.congr fun k _ => ?_
        by_cases hk : k = i
        · rw [hk, hself, Backends.loaded_of_not_isOk hup]
          rfl
        · exact hothers k hk

theorem refreshAll (h : Tracks s id copies st.1) :
    Tracks s id (fun place => (st.2.loadedInPass s.storage id place).getD (copies place))
      (QuerierPool.refreshAll st).2.1 := by
  change Tracks s id _
    { st.1 with queriers := (QuerierPool.refreshQueriers st.1.queriers st.2).2.1 }
  cases hmode : s.mode with
  | direct =>
    rw [QuerierPool.refreshQueriers_direct (h.direct hmode)]
    exact h.of_direct hmode _
  | cached =>
    refine ⟨(QuerierPool.refreshQueriers_length ..).trans h.length, fun place q' hget => ?_⟩
    rw [QuerierPool.refreshQueriers_getElem? (h.caches hmode), Option.map_eq_some_iff] at hget
    obtain ⟨q, hget, rfl⟩ := hget
    obtain ⟨hindex, hshows⟩ := h.shows place q hget
    exact ⟨hindex, hshows.id, hshows.storage, hshows.mode,
      fun hc => congrArg (st.2.loadedInPass s.storage id place).getD (hshows.copy hc)⟩

theorem next (h : Tracks s id copies st.1) (e : Event) :
    Tracks s id (fun place => (e.loadedFor s id place st.2).getD (copies place)) (e.next st).1 := by
  cases e with
  | write storage id' trie => exact h
  | refresh i => exact h.refreshAt i
  | refreshAll => exact h.refreshAll
  | lookup i label => exact h.asked (fun q b => by rw [Querier.lookup_state]) i
  | lookupMany i labels => exact h.asked (fun q b => by rw [Querier.lookupMany_state]) i

/-- Along a run the copies are those loaded last. -/
theorem run (h : Tracks s id copies st.1) (events : List Event) :
    Tracks s id (fun place => lastLoad s id place (copies place) st events)
      (run st events).1 := by
  induction events generalizing st copies with
  | nil => exact h
  | cons e events ih => exact ih (h.next e)

end Tracks

end Staleness

end AuthDict
