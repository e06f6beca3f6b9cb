import AuthDict.Proofs.Query.Requests

/-!
# Routers that share pools

Any number of pooled routers work on one table, each with a backend, a mode and a size of its own.
The first of them that looks a dictionary up opens its pool, and the pool stays bound to the backend
and the mode of its opener until it is removed. So every router reads, for this dictionary, the
backend of the opener and not its own (`sampleGuest_reads_foreign`): the answers are those of the trie
that the opener's backend holds, at once in direct mode and after a refresh in cached mode
(`lookups_read_opener`). They come from the router's own backend if all routers that look the
dictionary up have the same one.
-/
namespace AuthDict

/-- The lookups of a router in one dictionary are answered from a trie, or from the empty one. -/
structure PooledRouter.AnswersFrom (s : PooledRouter) (trie : Option Trie) (id : DictionaryId)
    (r : ReadSide) : Prop where
  lookup : ∀ label pick,
    (Router.lookup id label pick (.pooled s, r)).1 = .ok (Querier.answer trie label)
  lookupMany : ∀ labels pick,
    (Router.lookupMany id labels pick (.pooled s, r)).1 = .ok (labels.map (Querier.answer trie))

namespace Sharing

/-- What happens to a table of pools. -/
inductive Event where
  | request (asked : PooledRouter) (q : Request)
  | remove (id : DictionaryId)
  | clear

namespace Event

def run (r : ReadSide) : Event → ReadSide
  | request asked q => (q.run (.pooled asked, r)).2.2
  | remove id => { r with pools := r.pools.erase id }
  | clear => { r with pools := ∅ }

def checked? : Event → Option DictionaryId
  | request _ q => q.checked?
  | _ => none

def written? : Event → Option DictionaryId
  | request _ q => q.written?
  | _ => none

end Event

def run (r : ReadSide) (events : List Event) : ReadSide := events.foldl Event.run r

/-- The router whose backend and mode a lookup gets: the opener of the pool if there is one, else the
router that is asked, which then opens it. -/
def answering (opener : Option PooledRouter) (asked : PooledRouter) : Option PooledRouter :=
  opener.or (if asked.CanOpen then some asked else none)

def Event.opener (id : DictionaryId) (o : Option PooledRouter) : Event → Option PooledRouter
  | request asked q => if q.lookedUp? = some id then answering o asked else o
  | remove id' => if id' = id then none else o
  | clear => none

/-- The router that opened the pool of a dictionary, if there is one. -/
def opener (events : List Event) (id : DictionaryId) : Option PooledRouter :=
  events.foldl (Event.opener id) none

/-- The queriers of the dictionary were refreshed, and its trie has not been written since. -/
def Refreshed (id : DictionaryId) (events : List Event) : Prop :=
  ∃ past asked since, events = past ++ .request asked (.checkForUpdate id) :: since ∧
    ∀ e ∈ since, e.written? ≠ some id

/-- Whether the copies are current after an event, by whether they were before it. -/
def Event.freshAfter (id : DictionaryId) (fresh : Prop) (e : Event) : Prop :=
  e.checked? = some id ∨ fresh ∧ e.written? ≠ some id

/-- The pool of a dictionary shows the backend of its opener in the mode of its opener. Its copies
are current if it is fresh. -/
inductive Opened (r : ReadSide) (id : DictionaryId) (fresh : Prop) : Option PooledRouter → Prop
  | absent : r.pools.get? id = none → Opened r id fresh none
  | present {o : PooledRouter} {v : View} {p : QuerierPool} : r.pools.get? id = some p →
      v.ShowsPool id p → v.storage = o.storage → v.mode = o.mode →
      (fresh → v.Current id r.backends) → Opened r id fresh (some o)

structure Tracked (openers : DictionaryId → Option PooledRouter) (fresh : DictionaryId → Prop)
    (r : ReadSide) : Prop where
  readable : r.backends.Readable
  opened : ∀ id, Opened r id (fresh id) (openers id)

variable {r r' : ReadSide} {id : DictionaryId} {F F' : Prop} {o : Option PooledRouter}
  {openers : DictionaryId → Option PooledRouter} {fresh : DictionaryId → Prop}

theorem Opened.frame (h : Opened r id F o) (hpool : r'.pools.get? id = r.pools.get? id)
    (hfresh : F' → F ∧ ∀ ref, r'.backends.held ref id = r.backends.held ref id) :
    Opened r' id F' o := by
  cases h with
  | absent hget => exact .absent (hpool.trans hget)
  | present hget hp hstorage hmode hcurrent =>
    refine .present (hpool.trans hget) hp hstorage hmode fun hF => ?_
    obtain ⟨hF, hheld⟩ := hfresh hF
    exact (hcurrent hF).trans (hheld _).symm

/-- What a lookup returns and leaves if it finds a pool or may open one. -/
theorem Opened.serve (h : Opened r id F o) (hr : r.backends.Readable) {s t : PooledRouter}
    (ht : answering o s = some t) (pick : UInt8) :
    ∃ trie r', s.serve id pick r = (.ok trie, r') ∧
      (t.mode = .direct ∨ F → trie = r.backends.held t.storage id) ∧
      r.backends.SameButLoads r'.backends ∧ Opened r' id F (some t) ∧
      ∀ id', id' ≠ id → r'.pools.get? id' = r.pools.get? id' := by
  cases h with
  | absent hget =>
    obtain ⟨hs, rfl⟩ : s.CanOpen ∧ s = t := by simpa [answering] using ht
    obtain ⟨r', hserve, hshows⟩ := s.serve_of_none hget hs hr pick
    obtain ⟨p, hget', hp⟩ := hshows.pool
    refine ⟨_, r', hserve, fun _ => rfl, hshows.backends, ?_, hshows.others⟩
    refine .present hget' hp rfl rfl fun _ => ?_
    rw [View.Current, hshows.backends.held_eq]
    rfl
  | @present o v p hget hp hstorage hmode hcurrent =>
    obtain rfl : o = t := by simpa [answering] using ht
    obtain ⟨r', hserve, hshows⟩ := PooledRouter.serve_of_shows hget hp hr s pick
    obtain ⟨p', hget', hp'⟩ := hshows.pool
    refine ⟨_, r', hserve, fun hanswer => ?_, hshows.backends, ?_, hshows.others⟩
    · rw [← hstorage]
      rcases hanswer with hdirect | hF
      · exact v.trie_of_direct (hmode.trans hdirect) _
      · exact (hcurrent hF).trie_eq
    · refine .present hget' hp' hstorage hmode fun hF => ?_
      rw [View.Current, hshows.backends.held_eq]
      exact hcurrent hF

theorem Opened.serve_error (h : Opened r id F o) {s : PooledRouter} (ht : answering o s = none)
    (pick : UInt8) :
    o = none ∧ s.serve id pick r = (.error (.configuration (.querierCount s.size)), r) := by
  cases h with
  | absent hget =>
    have hs : ¬ s.CanOpen := by simpa [answering] using ht
    exact ⟨rfl, s.serve_of_not_canOpen hget hs pick⟩
  | present hget hp hstorage hmode hcurrent => simp [answering] at ht

theorem Opened.refresh (h : Opened r id F o) (hr : r.backends.Readable) :
    ∃ r', ReadSide.refreshPool id r = (.ok (), r') ∧ r.backends.SameButLoads r'.backends ∧
      Opened r' id True o ∧ ∀ id', id' ≠ id → r'.pools.get? id' = r.pools.get? id' := by
  cases h with
  | absent hget =>
    exact ⟨r, ReadSide.refreshPool_of_none hget, .refl _, .absent hget, fun _ _ => rfl⟩
  | present hget hp hstorage hmode hcurrent =>
    obtain ⟨r', hrefresh, hshows⟩ := ReadSide.refreshPool_of_shows hget hp hr
    obtain ⟨p', hget', hp'⟩ := hshows.pool
    refine ⟨r', hrefresh, hshows.backends, ?_, hshows.others⟩
    refine .present hget' hp' hstorage hmode fun _ => ?_
    rw [View.Current, hshows.backends.held_eq]
    rfl

/-- An event that touches the pool of one dictionary, and of the backends the load counts only. -/
theorem Tracked.touch {openers' : DictionaryId → Option PooledRouter} {fresh' : DictionaryId → Prop}
    (h : Tracked openers fresh r) (hback : r.backends.SameButLoads r'.backends)
    (hothers : ∀ id', id' ≠ id → r'.pools.get? id' = r.pools.get? id')
    (hopened : Opened r' id (fresh' id) (openers' id))
    (hsame : ∀ id', id' ≠ id → openers' id' = openers id' ∧ (fresh' id' → fresh id')) :
    Tracked openers' fresh' r' := by
  refine ⟨hback.readable h.readable, fun id' => ?_⟩
  by_cases hid : id' = id
  · exact hid ▸ hopened
  · obtain ⟨hopener, hfresh⟩ := hsame id' hid
    rw [hopener]
    exact (h.opened id').frame (hothers id' hid) fun hF => ⟨hfresh hF, fun _ => by rw [hback.held_eq]⟩

theorem Tracked.lookup (h : Tracked openers fresh r) (asked : PooledRouter) {q : Request}
    (hq : q.lookedUp? = some id) :
    Tracked (fun id => (Event.request asked q).opener id (openers id))
      (fun id => (Event.request asked q).freshAfter id (fresh id)) ((Event.request asked q).run r) := by
  obtain ⟨pick, hrun⟩ := Request.exists_run_eq hq
  have hafter : (Event.request asked q).run r = (asked.serve id pick r).2 := by
    rw [Event.run, hrun]
    rfl
  have hother : ∀ id', id' ≠ id →
      (Event.request asked q).opener id' (openers id') = openers id' ∧
        ((Event.request asked q).freshAfter id' (fresh id') → fresh id') := by
    intro id' hne
    have hneither : q.lookedUp? ≠ some id' ∧ q.checked? = none ∧ q.written? = none := by
      cases q <;> simp_all [Request.lookedUp?, Request.checked?, Request.written?, eq_comm]
    simp [Event.opener, Event.freshAfter, Event.checked?, Event.written?, hneither]
  have hself : (Event.request asked q).opener id (openers id) = answering (openers id) asked := by
    simp [Event.opener, hq]
  have hkeep : (Event.request asked q).freshAfter id (fresh id) → fresh id := by
    have hneither : q.checked? = none ∧ q.written? = none := by
      cases q <;> simp_all [Request.lookedUp?, Request.checked?, Request.written?]
    simp [Event.freshAfter, Event.checked?, Event.written?, hneither]
  rw [hafter]
  cases ht : answering (openers id) asked with
  | some t =>
    obtain ⟨_, r', hserve, -, hback, hopened, hothers⟩ := (h.opened id).serve h.readable ht pick
    rw [hserve]
    refine h.touch hback hothers ?_ hother
    rw [hself, ht]
    exact hopened.frame rfl fun hF => ⟨hkeep hF, fun _ => rfl⟩
  | none =>
    obtain ⟨hnone, hserve⟩ := (h.opened id).serve_error ht pick
    rw [hserve]
    refine h.touch (.refl _) (fun _ _ => rfl) ?_ hother
    rw [hself, ht, ← hnone]
    exact (h.opened id).frame rfl fun hF => ⟨hkeep hF, fun _ => rfl⟩

theorem Tracked.step (h : Tracked openers fresh r) (e : Event) :
    Tracked (fun id => e.opener id (openers id)) (fun id => e.freshAfter id (fresh id)) (e.run r) := by
  cases e with
  | request asked q =>
    cases q with
    | lookup id label pick => exact h.lookup asked rfl
    | lookupMany id labels pick => exact h.lookup asked rfl
    | checkForUpdate id =>
      obtain ⟨r', hrefresh, hback, hopened, hothers⟩ := (h.opened id).refresh h.readable
      have hafter : (Event.request asked (.checkForUpdate id)).run r = r' := by
        have hcheck : Router.checkForUpdate id (.pooled asked, r) = (.ok (), (.pooled asked, r')) := by
          rw [Router.checkForUpdate, Router.run, hrefresh]
        rw [Event.run, Request.run_checkForUpdate, hcheck]
      rw [hafter]
      refine h.touch hback hothers (hopened.frame rfl fun _ => ⟨trivial, fun _ => rfl⟩) ?_
      intro id' hne
      simp [Event.opener, Event.freshAfter, Event.checked?, Event.written?, Request.lookedUp?,
        Request.checked?, Request.written?, Ne.symm hne]
    | write ref id trie =>
      rw [Event.run, Request.run_write]
      refine ⟨h.readable.written ref id trie, fun id' => ?_⟩
      refine (h.opened id').frame rfl fun hF => ?_
      have hF : fresh id' ∧ ¬ id = id' := by
        simpa [Event.freshAfter, Event.checked?, Event.written?, Request.checked?, Request.written?]
          using hF
      exact ⟨hF.1, fun ref' => Backends.held_written_of_ne (Ne.symm hF.2) ..⟩
  | remove id =>
    have hothers (id' : DictionaryId) (hne : id' ≠ id) :
        (r.pools.erase id).get? id' = r.pools.get? id' := OrderedMap.get?_erase_of_ne _ hne
    refine h.touch (.refl _) hothers ?_ ?_
    · have hopener : (Event.remove id).opener id (openers id) = none := if_pos rfl
      rw [hopener]
      exact .absent (OrderedMap.get?_erase_self ..)
    · intro id' hne
      simp [Event.opener, Event.freshAfter, Event.checked?, Event.written?, Ne.symm hne]
  | clear => exact ⟨h.readable, fun id => .absent (OrderedMap.get?_empty id)⟩

theorem Tracked.run (h : Tracked openers fresh r) (events : List Event) :
    Tracked (fun id => events.foldl (Event.opener id) (openers id))
      (fun id => events.foldl (Event.freshAfter id) (fresh id)) (run r events) := by
  induction events generalizing openers fresh r with
  | nil => exact h
  | cons e events ih => exact ih (h.step e)

theorem tracked_start {first : ReadSide} (hread : first.backends.Readable) (hpools : first.pools = ∅)
    (events : List Event) :
    Tracked (opener events) (fun id => events.foldl (Event.freshAfter id) False)
      (Sharing.run first events) := by
  have hstart : Tracked (fun _ => none) (fun _ => False) first := by
    refine ⟨hread, fun id => .absent ?_⟩
    rw [hpools]
    exact OrderedMap.get?_empty id
  exact hstart.run events

theorem fresh_of_unwritten {events : List Event} (h : ∀ e ∈ events, e.written? ≠ some id) {F : Prop}
    (hF : F) : events.foldl (Event.freshAfter id) F := by
  induction events generalizing F with
  | nil => exact hF
  | cons e events ih =>
    obtain ⟨he, hevents⟩ := List.forall_mem_cons.1 h
    exact ih hevents (.inr ⟨hF, he⟩)

theorem Refreshed.foldl_freshAfter {events : List Event} (h : Refreshed id events) :
    events.foldl (Event.freshAfter id) False := by
  obtain ⟨past, asked, since, rfl, hsince⟩ := h
  rw [List.foldl_append]
  exact fresh_of_unwritten hsince (.inl rfl)

/-- A router that answers after some events did so before them, or has looked the dictionary up. -/
theorem eq_or_mem_of_opener {events : List Event} {t : PooledRouter}
    (h : events.foldl (Event.opener id) o = some t) :
    o = some t ∨ ∃ q, Event.request t q ∈ events ∧ q.lookedUp? = some id := by
  induction events generalizing o with
  | nil => exact .inl h
  | cons e events ih =>
    rcases ih h with ho | ⟨q, hmem, hq⟩
    · cases e with
      | request asked q =>
        simp only [Event.opener] at ho
        split at ho
        · next hq =>
          cases o with
          | some o => exact .inl ho
          | none =>
            obtain ⟨-, rfl⟩ : asked.CanOpen ∧ asked = t := by simpa [answering] using ho
            exact .inr ⟨q, List.mem_cons_self, hq⟩
        · exact .inl ho
      | remove id' =>
        simp only [Event.opener] at ho
        split at ho
        · contradiction
        · exact .inl ho
      | clear => contradiction
    · exact .inr ⟨q, List.mem_cons_of_mem _ hmem, hq⟩

theorem answersFrom_of_serve {s : PooledRouter} {trie : Option Trie}
    (h : ∀ pick, (s.serve id pick r).1 = .ok trie) : s.AnswersFrom trie id r := by
  have hserve (pick : UInt8) :
      Router.serve id pick (.pooled s, r) = (.ok trie, (.pooled s, (s.serve id pick r).2)) := by
    rw [Router.serve, Router.run, ← h pick]
  constructor
  · intro label pick
    rw [Router.lookup, Action.bind_ok (hserve pick)]
    rfl
  · intro labels pick
    rw [Router.lookupMany, Action.bind_ok (hserve pick)]
    rfl

/-- Lookups read the backend of the router that opened the pool, at once in its direct mode and
after a refresh in its cached mode. They read the router's own backend if nobody with another
backend or mode has looked the dictionary up. Without a pool, and without the right to open one, they
fail. -/
theorem lookups_read_opener {first : ReadSide} (hread : first.backends.Readable)
    (hpools : first.pools = ∅) (events : List Event) (s : PooledRouter) (id : DictionaryId) :
    (∀ t, answering (opener events id) s = some t → t.mode = .direct ∨ Refreshed id events →
      s.AnswersFrom ((run first events).backends.held t.storage id) id (run first events)) ∧
    (answering (opener events id) s = none → ∀ label pick,
      (Router.lookup id label pick (.pooled s, run first events)).1 =
        .error (.configuration (.querierCount s.size))) ∧
    (s.CanOpen → (∀ asked q, .request asked q ∈ events → q.lookedUp? = some id →
        asked.storage = s.storage ∧ asked.mode = s.mode) →
      s.mode = .direct ∨ Refreshed id events →
      s.AnswersFrom ((run first events).backends.held s.storage id) id (run first events)) := by
  have htracked := tracked_start hread hpools events
  have hopener (t : PooledRouter) (ht : answering (opener events id) s = some t)
      (hmode : t.mode = .direct ∨ Refreshed id events) :
      s.AnswersFrom ((run first events).backends.held t.storage id) id (run first events) := by
    refine answersFrom_of_serve fun pick => ?_
    obtain ⟨trie, r', hserve, htrie, -⟩ :=
      (htracked.opened id).serve htracked.readable ht pick
    rw [hserve, htrie (hmode.imp_right Refreshed.foldl_freshAfter)]
  refine ⟨hopener, fun hnone label pick => ?_, fun hs hall hmode => ?_⟩
  · obtain ⟨-, hserve⟩ := (htracked.opened id).serve_error hnone pick
    have hrun : Router.serve id pick (.pooled s, run first events) =
        (.error (.configuration (.querierCount s.size)), (.pooled s, run first events)) := by
      rw [Router.serve, Router.run, hserve]
    rw [Router.lookup, Action.bind_error hrun]
  · cases ho : opener events id with
    | none =>
      have ht : answering (opener events id) s = some s := by simp [answering, ho, hs]
      exact hopener s ht hmode
    | some t =>
      obtain ⟨q, hmem, hq⟩ := (eq_or_mem_of_opener ho).resolve_left (by simp)
      obtain ⟨hstorage, hsame⟩ := hall t q hmem hq
      have ht : answering (opener events id) s = some t := by simp [answering, ho]
      rw [← hstorage]
      exact hopener t ht (hmode.imp_left hsame.trans)

/-- Two routers with backends of their own, both in direct mode. -/
def sampleHost : PooledRouter := ⟨0, .direct, 2⟩

def sampleGuest : PooledRouter := ⟨1, .direct, 2⟩

/-- A trie is stored in the backend of the first, which then looks the dictionary up. -/
def sampleEvents : List Event :=
  [.request sampleHost (.write 0 (Block.zero 16)
    (({} : Trie).applyBatch [⟨Block.zero 32, Block.zero 32⟩]).1),
   .request sampleHost (.lookup (Block.zero 16) (Block.zero 32) 0)]

def sampleTable : ReadSide := { backends := {}, pools := ∅, metrics := {} }

theorem lookups_read_opener_sampleEvents :
    sampleTable.backends.Readable ∧ sampleTable.pools = ∅ ∧
      sampleGuest.AnswersFrom ((run sampleTable sampleEvents).backends.held sampleHost.storage
        (Block.zero 16)) (Block.zero 16) (run sampleTable sampleEvents) ∧
      sampleHost.AnswersFrom ((run sampleTable sampleEvents).backends.held sampleHost.storage
        (Block.zero 16)) (Block.zero 16) (run sampleTable sampleEvents) := by
  have hread : sampleTable.backends.Readable := Backends.readable_empty
  have hguest := lookups_read_opener hread rfl sampleEvents sampleGuest (Block.zero 16)
  have hhost := lookups_read_opener hread rfl sampleEvents sampleHost (Block.zero 16)
  refine ⟨hread, rfl, hguest.1 sampleHost rfl (.inl rfl),
    hhost.2.2 (by decide) ?_ (.inl rfl)⟩
  intro asked q hmem _
  simp only [sampleEvents, List.mem_cons, List.not_mem_nil, Event.request.injEq, or_false] at hmem
  rcases hmem with ⟨rfl, -⟩ | ⟨rfl, -⟩ <;> exact ⟨rfl, rfl⟩

/-- The second router is not answered from its own backend, which holds no trie. -/
theorem sampleGuest_reads_foreign :
    sampleTable.backends.Readable ∧ sampleGuest.mode = .direct ∧
      (Router.lookup (Block.zero 16) (Block.zero 32) 0
        (.pooled sampleGuest, run sampleTable sampleEvents)).1 ≠
      .ok (Querier.answer ((run sampleTable sampleEvents).backends.held sampleGuest.storage
        (Block.zero 16)) (Block.zero 32)) := by
  refine ⟨Backends.readable_empty, rfl, fun h => ?_⟩
  have hlooked : (Router.lookup (Block.zero 16) (Block.zero 32) 0
      (.pooled sampleGuest, run sampleTable sampleEvents)).1.map (·.epoch) = .ok 1 := rfl
  have hown : (run sampleTable sampleEvents).backends.held sampleGuest.storage (Block.zero 16) =
      none := rfl
  rw [h, hown] at hlooked
  have hepoch : (0 : Epoch) = 1 := Except.ok.inj hlooked
  exact absurd hepoch (by decide)

end Sharing

end AuthDict
