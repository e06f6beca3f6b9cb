import AuthDict.Proofs.Updater.Exclusion
import Mathlib.Data.List.Infix

/-!
# Published states

A publication loads the stored trie twice, once for its root and once for its epoch, and a cycle may
save in between. What it returns is then the root of one trie with the epoch of a later one, and it
may be that no trie that was stored has both. If no batch is saved between the two readings, both
are those of the trie that is stored at that time.
-/
namespace AuthDict

/-- Root and epoch are those of the stored trie, or of the empty one if there is none. -/
structure PublishedState.Describes (p : PublishedState) (stored : Option Trie) : Prop where
  root : p.root = (stored.getD {}).root
  epoch : p.epoch = (stored.getD {}).epoch

instance (p : PublishedState) (stored : Option Trie) : Decidable (p.Describes stored) :=
  decidable_of_iff (p.epoch = (stored.getD {}).epoch ∧ p.root = (stored.getD {}).root)
    ⟨fun h => ⟨h.2, h.1⟩, fun h => ⟨h.epoch, h.root⟩⟩

/-- What a publication has returned. -/
def Call.published? : Call → Option PublishedState
  | publication _ _ (.returned (.ok p)) => some p
  | _ => none

namespace PublicationStage

variable {id : DictionaryId} {key : Option PublicKey} {s s' : Shared} {stage : PublicationStage}

theorem next?_called (h : called.next? id key s = some (stage, s')) :
    stage = .rootRead ((s.stored id).getD {}).root ∨ ∃ e, stage = .returned (.error e) := by
  rcases hload : Storage.loadRoot id s.side.storage with ⟨e | root, storage⟩
  · simp only [next?, hload] at h
    cases h
    exact .inr ⟨e, rfl⟩
  · have hroot := Storage.loadRoot_ok hload
    simp only [next?, hload] at h
    cases h
    exact .inl (congrArg rootRead hroot)

theorem next?_rootRead {root : Digest} (h : (rootRead root).next? id key s = some (stage, s')) :
    stage = .returned (.ok ⟨root, ((s.stored id).getD {}).epoch, key⟩) ∨
      ∃ e, stage = .returned (.error e) := by
  rcases hload : Storage.loadEpoch id s.side.storage with ⟨e | epoch, storage⟩
  · simp only [next?, hload] at h
    cases h
    exact .inr ⟨e, rfl⟩
  · have hepoch := Storage.loadEpoch_ok hload
    simp only [next?, hload] at h
    cases h
    subst hepoch
    exact .inl rfl

end PublicationStage

namespace World

variable {id : DictionaryId} {key : Option PublicKey} {w w' : World} {i : Nat}

theorem getElem?_around {before after : List Call} {c c' : Call} (h : before.length ≠ i) :
    (before ++ c' :: after)[i]? = (before ++ c :: after)[i]? := by
  have hset : before ++ c' :: after = (before ++ c :: after).set before.length c' := by simp
  rw [hset, List.getElem?_set_ne h]

/-- A move leaves a call alone, or it is a step of this call. -/
theorem Step.call_cases {m : Move} {c : Call} (h : Step w m w') (hc : w.calls[i]? = some c) :
    w'.calls[i]? = some c ∨
      ∃ pick c', Call.Step pick w.shared c c' w'.shared ∧ w'.calls[i]? = some c' := by
  cases h with
  | enqueue => exact .inl hc
  | start _ => exact .inl (List.getElem?_append_left (List.getElem?_eq_some_iff.1 hc).1 ▸ hc)
  | @call s s' before after enqueued saved d d' pick hstep =>
    by_cases hi : i = before.length
    · subst hi
      obtain rfl : d = c := by simpa using hc
      exact .inr ⟨pick, d', hstep, by simp⟩
    · rw [← hc]
      exact .inl (getElem?_around (Ne.symm hi))

/-- A move saves a batch of the dictionary, or it leaves the stored trie alone. -/
theorem Step.saves_cases {m : Move} (h : Step w m w') (id : DictionaryId) :
    (w'.savedBatches id = w.savedBatches id ∧ w'.shared.stored id = w.shared.stored id) ∨
      ∃ batch, w'.savedBatches id = w.savedBatches id ++ [batch] := by
  cases h with
  | enqueue => exact .inl ⟨rfl, w.stored_enqueue ..⟩
  | start _ => exact .inl ⟨rfl, rfl⟩
  | @call s s' before after enqueued saved c c' pick hstep =>
    simp only [savedBatches_append]
    cases hstep.effect id with
    | works heff =>
      rw [Call.justSaved_inside]
      rcases heff.stored_cases with ⟨hnone, hsame⟩ | ⟨batch, snapshot, -, hone, -⟩
      · rw [hnone, List.append_nil]
        exact .inl ⟨rfl, hsame⟩
      · rw [hone]
        exact .inr ⟨batch, rfl⟩
    | empties _ _ hstored => exact .inl ⟨List.append_nil _, hstored⟩
    | other _ hstored _ hrest =>
      rw [Call.justSaved_of_atRest hrest, List.map_nil, List.append_nil]
      exact .inl ⟨rfl, hstored⟩

/-- While no batch of the dictionary is saved, its stored trie stays what it is. -/
theorem stored_of_savedBatches {moves : List Move} (hrun : w.run? moves = some w')
    (hsaved : w'.savedBatches id = w.savedBatches id) :
    w'.shared.stored id = w.shared.stored id := by
  have hgrows : ∃ new, w'.savedBatches id = w.savedBatches id ++ new ∧
      (new = [] → w'.shared.stored id = w.shared.stored id) := by
    refine play?_keeps (P := fun w' => ∃ new, w'.savedBatches id = w.savedBatches id ++ new ∧
      (new = [] → w'.shared.stored id = w.shared.stored id)) ?_ hrun
      ⟨[], (List.append_nil _).symm, fun _ => rfl⟩
    intro v v' m _ hstep h
    obtain ⟨new, hnew, hstored⟩ := h
    rcases hstep.saves_cases id with ⟨hsame, hkept⟩ | ⟨batch, hone⟩
    · exact ⟨new, hsame.trans hnew, fun hnil => hkept.trans (hstored hnil)⟩
    · exact ⟨new ++ [batch], by rw [hone, hnew, List.append_assoc], by simp⟩
  obtain ⟨new, hnew, hstored⟩ := hgrows
  exact hstored (by simpa [hsaved] using hnew)

/-- A call that has changed in a run has taken a step at some point of it. -/
theorem run?_changes {moves : List Move} {c d : Call} (hcall : w.calls[i]? = some c)
    (hrun : w.run? moves = some w') (hend : w'.calls[i]? = some d) (hne : d ≠ c) :
    ∃ ms m ns v v' pick c', moves = ms ++ m :: ns ∧ w.run? ms = some v ∧ v.next? m = some v' ∧
      v'.run? ns = some w' ∧ Call.Step pick v.shared c c' v'.shared ∧ v'.calls[i]? = some c' := by
  induction moves generalizing w with
  | nil =>
    cases hrun
    exact absurd (Option.some.inj (hend.symm.trans hcall)) hne
  | cons m moves ih =>
    obtain ⟨v, hnext, hrest⟩ := Option.bind_eq_some_iff.1 (show (w.next? m).bind _ = _ from hrun)
    rcases (next?_step hnext).call_cases hcall with hsame | ⟨pick, c', hstep, hcall'⟩
    · obtain ⟨ms, m', ns, v', v'', pick, c', rfl, hms, hrest⟩ := ih hsame hrest
      refine ⟨m :: ms, m', ns, v', v'', pick, c', rfl, ?_, hrest⟩
      exact Option.bind_eq_some_iff.2 ⟨v, hnext, hms⟩
    · exact ⟨[], m, moves, w, v, pick, c', rfl, rfl, hnext, hrest, hstep, hcall'⟩

theorem run?_returned {moves : List Move} {r : Except Error PublishedState} {p : PublishedState}
    (hcall : w.calls[i]? = some (.publication id key (.returned r)))
    (hrun : w.run? moves = some w') (hend : w'.calls[i]?.bind Call.published? = some p) :
    r = .ok p := by
  obtain ⟨d, hd, hp⟩ := Option.bind_eq_some_iff.1 hend
  have hsame : d = .publication id key (.returned r) := by
    by_contra hne
    obtain ⟨_, _, _, _, _, _, _, -, -, -, -, hstep, -⟩ := run?_changes hcall hrun hd hne
    cases hstep with
    | publish hnext => contradiction
  subst hsame
  cases r with
  | error e => contradiction
  | ok q => exact congrArg Except.ok (Option.some.inj hp)

/-- What a publication returns is the root of the trie that is stored at one point of the run and
the epoch of the one that is stored at a later point. If no batch is saved in between, it describes
the trie that is stored at both. -/
theorem published_parts {moves : List Move} {p : PublishedState}
    (hcall : w.calls[i]? = some (.publication id key .called)) (hrun : w.run? moves = some w')
    (hend : w'.calls[i]?.bind Call.published? = some p) :
    ∃ ms ns rest w₁ w₂, moves = ms ++ ns ++ rest ∧ w.run? ms = some w₁ ∧ w₁.run? ns = some w₂ ∧
      w₂.run? rest = some w' ∧ p.root = ((w₁.shared.stored id).getD {}).root ∧
      p.epoch = ((w₂.shared.stored id).getD {}).epoch ∧ p.publicKey = key ∧
      (w₂.savedBatches id = w₁.savedBatches id → p.Describes (w₁.shared.stored id)) := by
  obtain ⟨d, hd, hp⟩ := Option.bind_eq_some_iff.1 hend
  have hcalled : d ≠ .publication id key .called := fun h => by simp [h, Call.published?] at hp
  obtain ⟨ms, m, moves, w₁, v₁, _, _, rfl, hms, hroot, hrun, hstep, hcall⟩ :=
    run?_changes hcall hrun hd hcalled
  cases hstep with
  | publish hnext =>
    obtain rfl | ⟨e, rfl⟩ := PublicationStage.next?_called hnext
    · have hread : d ≠ .publication id key (.rootRead ((w₁.shared.stored id).getD {}).root) :=
        fun h => by simp [h, Call.published?] at hp
      obtain ⟨ns, m', rest, w₂, v₂, _, _, rfl, hns, hepoch, hrun, hstep, hcall⟩ :=
        run?_changes hcall hrun hd hread
      have hbetween : w₁.run? (m :: ns) = some w₂ := Option.bind_eq_some_iff.2 ⟨v₁, hroot, hns⟩
      have hrest : w₂.run? (m' :: rest) = some w' := Option.bind_eq_some_iff.2 ⟨v₂, hepoch, hrun⟩
      cases hstep with
      | publish hnext =>
        obtain rfl | ⟨e, rfl⟩ := PublicationStage.next?_rootRead hnext
        · obtain rfl := Except.ok.inj (run?_returned hcall hrun hend)
          refine ⟨ms, m :: ns, m' :: rest, w₁, w₂, by simp, hms, hbetween, hrest, rfl, rfl, rfl,
            fun hsaved => ⟨rfl, ?_⟩⟩
          rw [stored_of_savedBatches hbetween hsaved]
        · cases run?_returned hcall hrun hend
    · cases run?_returned hcall hrun hend

/-- The root is read before the first batch is saved, and the epoch afterwards. -/
def sampleTear : List Move :=
  [.start (.publication sampleId none .called), .enqueue sampleId [sampleUpdate 0],
    .start sampleCycle] ++ List.replicate 4 (.advance 1 0) ++
    [.advance 0 0, .advance 1 0, .advance 0 0]

/-- The call starts with the run, and at no point of it is a trie stored that has both the root and
the epoch that are returned. -/
theorem sampleTear_torn : ∃ w p, (initial {}).run? sampleTear = some w ∧
    w.calls[0]?.bind Call.published? = some p ∧
    ∀ ms, ms <+: sampleTear → ∀ v, (initial {}).run? ms = some v →
      ¬ p.Describes (v.shared.stored sampleId) := by
  have hend : ((initial {}).run? sampleTear).any
      (fun w => w.calls[0]?.bind Call.published? = some ⟨emptyDigest, 1, none⟩) := by
    decide +kernel
  have htorn : ∀ ms ∈ sampleTear.inits, ∀ v ∈ (initial {}).run? ms,
      ¬ PublishedState.Describes ⟨emptyDigest, 1, none⟩ (v.shared.stored sampleId) := by
    decide +kernel
  obtain ⟨w, hrun, hw⟩ := (Option.any_eq_true _ _).1 hend
  refine ⟨w, _, hrun, of_decide_eq_true hw, fun ms hms v hv => ?_⟩
  exact htorn ms ((List.mem_inits ..).2 hms) v hv

/-- A publication that has been called, and nothing else. -/
def sampleCalled : World :=
  { initial {} with calls := [.publication sampleId none .called] }

/-- The trie of the first batch. -/
def sampleStored : Trie := (({} : Trie).applyBatch [sampleUpdate 0]).1

/-- A cycle saves before the publication reads, and another one drains between the readings. -/
def samplePublication : List Move :=
  [.enqueue sampleId [sampleUpdate 0], .start sampleCycle] ++ List.replicate 7 (.advance 1 0) ++
    [.advance 0 0, .enqueue sampleId [sampleUpdate 1], .start sampleCycle] ++
    List.replicate 3 (.advance 2 0) ++ [.advance 0 0]

theorem published_parts_samplePublication :
    ∃ w p, sampleCalled.run? samplePublication = some w ∧
      w.calls[0]?.bind Call.published? = some p ∧
      ∃ ms ns rest w₁ w₂, samplePublication = ms ++ ns ++ rest ∧ sampleCalled.run? ms = some w₁ ∧
        w₁.run? ns = some w₂ ∧ w₂.savedBatches sampleId = w₁.savedBatches sampleId ∧
        p.Describes (w₁.shared.stored sampleId) ∧
        w₁.shared.stored sampleId = some sampleStored := by
  have hend : (sampleCalled.run? samplePublication).any fun w =>
      w.calls[0]?.bind Call.published? = some ⟨sampleStored.root, 1, none⟩ := by
    decide +kernel
  -- In the states that have the root or the epoch that is returned, the first batch is saved.
  have hsaved : ∀ ms ∈ samplePublication.inits, ∀ v ∈ sampleCalled.run? ms,
      ((v.shared.stored sampleId).getD {}).root = sampleStored.root ∨
        ((v.shared.stored sampleId).getD {}).epoch = 1 →
      v.savedBatches sampleId = [[sampleUpdate 0]] ∧
        v.shared.stored sampleId = some sampleStored := by
    decide +kernel
  obtain ⟨w, hrun, hw⟩ := (Option.any_eq_true _ _).1 hend
  have hp : w.calls[0]?.bind Call.published? = some ⟨sampleStored.root, 1, none⟩ :=
    of_decide_eq_true hw
  have hcall : sampleCalled.calls[0]? = some (.publication sampleId none .called) := rfl
  obtain ⟨ms, ns, rest, w₁, w₂, hsplit, hms, hns, -, hroot, hepoch, -, hdescribes⟩ :=
    published_parts hcall hrun hp
  have hprefix : ms ++ ns ∈ samplePublication.inits :=
    (List.mem_inits ..).2 ⟨rest, hsplit.symm⟩
  have hbefore : ms ∈ samplePublication.inits :=
    (List.mem_inits ..).2 ((List.prefix_append ms ns).trans ((List.mem_inits ..).1 hprefix))
  obtain ⟨hfirst, hstored⟩ := hsaved ms hbefore w₁ hms (.inl hroot.symm)
  obtain ⟨hsecond, -⟩ :=
    hsaved (ms ++ ns) hprefix w₂ (Schedule.play?_append hms hns) (.inr hepoch.symm)
  have hsame : w₂.savedBatches sampleId = w₁.savedBatches sampleId := hsecond.trans hfirst.symm
  exact ⟨w, _, hrun, hp, ms, ns, rest, w₁, w₂, hsplit, hms, hns, hsame, hdescribes hsame, hstored⟩

end World

end AuthDict
