import AuthDict.Proofs.Answer
import AuthDict.Proofs.Dictionary.Accounting
import AuthDict.Proofs.Label.Proof
import AuthDict.Proofs.Trie.Lookup

/-!
# Answers are right and verify

An answer is given from the stored trie or from a copy of an earlier one, and a member's payload is
read from the backend after the lookup. It is right nevertheless: a leaf of any trie that was ever
stored is the update of an inserted entry, and the element of that entry is stored before the leaf
and never changes. So every answer passes the check, tells what that trie has for the key, and no
query finds a member without its element.
-/
namespace AuthDict

theorem Querier.answer_eq_lookup (t : Option Trie) (label : Label) :
    Querier.answer t label = (t.getD {}).lookup label := by
  cases t with
  | none => exact (Trie.lookup_empty label).symm
  | some t => rfl

/-- What label proofs rely on: the group laws hold, and the public key is not the identity. -/
structure ProofKey.Proper {G : Type} [ProofGroup G] (k : ProofKey G) : Prop where
  lawful : ProofGroup.Lawful G
  nonidentity : ProofGroup.isIdentity k.point = false

theorem LabelSecret.point_ofBytes {G : Type} [ProofGroup G] {scheme : LabelScheme} {bytes : Seed}
    {k : ProofKey G} (h : LabelSecret.ofBytes scheme bytes = .verifiable k) :
    k.point = ProofGroup.smul k.scalar ProofGroup.generator := by
  cases scheme with
  | plain => contradiction
  | verifiable =>
    have hk : ProofKey.ofSeed G bytes = k := LabelSecret.verifiable.inj h
    rw [← hk]
    rfl

theorem Setting.point_secret {x : Setting} {k : ProofKey Ristretto} (h : x.secret = .verifiable k) :
    k.point = ProofGroup.smul k.scalar ProofGroup.generator := by
  rw [Setting.secret, Blueprint.freshSecret] at h
  split at h
  · exact LabelSecret.point_ofBytes h
  · exact LabelSecret.point_ofBytes h

/-- The proof that goes with a derived label is accepted under the public key. -/
theorem Setting.labelHolds {x : Setting} {a : Answer} {key : Bytes}
    (hproper : ∀ k, x.secret = .verifiable k → k.Proper)
    (hlabel : a.path.label = x.secret.label key)
    (hproof : a.proof? = (x.secret.derive key).proof) :
    a.labelHolds key x.secret.publicKey = true := by
  cases hsecret : x.secret with
  | plain s => rfl
  | verifiable k =>
    obtain ⟨⟨A, _, R, hR⟩, hnonidentity⟩ := hproper k hsecret
    have hpos : 0 < ProofGroup.order Ristretto := by decide
    have hle : ProofGroup.order Ristretto ≤ 256 ^ 32 := by decide
    have hverify := LabelProof.verify_proveWithNonce hR hpos hle (Setting.point_secret hsecret)
      hnonidentity key (LabelProof.nonceFor k key)
    rw [hsecret] at hlabel hproof
    have hproof' : a.proof? = some (LabelProof.prove k key).2 := hproof
    have hlabel' : a.path.label = (LabelProof.prove k key).1 := hlabel
    unfold Answer.labelHolds LabelSecret.publicKey
    rw [hproof', hlabel']
    exact hverify

/-- An answer tells what a trie has for a key, given the entries inserted so far. -/
structure Answer.RightAt (x : Setting) (log : List Entry) (key : Bytes) (t : Trie) (a : Answer) :
    Prop where
  root : a.path.root = t.root
  epoch : a.epoch = t.epoch
  isMember_iff : a.isMember = true ↔ ∃ e ∈ log, e.key = key ∧ x.updateOf e ∈ t.updates
  payload : ∀ e ∈ log, e.key = key → a.isMember = true → a.payload? = some e.payload

namespace Setting

variable {x : Setting} {D : Deployment} {log : List Entry} {past : List Trie} {key : Bytes}
  {t : Trie}

theorem Sound.element (h : x.Sound D log past) {e : Entry} (he : e ∈ log) :
    (D.service.holdings x.site).elements e.key = some e.element :=
  h.balanced.stored.some_iff.2 (.inr ⟨e, he, rfl, rfl⟩)

/-- A member is the key of an inserted entry, whose element is stored and whose commitment is the
leaf. -/
theorem Sound.entry_of_member (h : x.Sound D log past)
    (hapart : Holdings.LabelsApart x.updateOf log)
    (hkey : ∀ e ∈ log, x.secret.label e.key = x.secret.label key → e.key = key) (ht : t ∈ past)
    (hmember : (t.lookup (x.secret.label key)).isMember = true) :
    ∃ e ∈ log, e.key = key ∧ x.updateOf e ∈ t.updates ∧
      (D.service.holdings x.site).elements key = some e.element ∧
      (t.lookup (x.secret.label key)).leaf =
        some (x.pinned.commitmentScheme.commit e.payload e.randomness) := by
  have hleaf := Trie.leaf_lookup (h.coherent t ht) (x.secret.label key)
  rw [LookupPath.isMember, hleaf] at hmember
  obtain ⟨c, hget⟩ := Option.isSome_iff_exists.1 hmember
  have hupdates := Trie.mem_updates.2 hget
  obtain ⟨e, he, hupdate⟩ := List.mem_map.1 (h.written hapart t ht hupdates)
  obtain rfl : e.key = key := hkey e he (congrArg Update.label hupdate)
  have hcommit : x.pinned.commitmentScheme.commit e.payload e.randomness = c :=
    congrArg Update.commitment hupdate
  refine ⟨e, he, rfl, ?_, h.element he, ?_⟩
  · rw [hupdate]
    exact hupdates
  · rw [hleaf, hget, hcommit]

/-- The answer that a lookup in a trie of the run leads to is right. -/
theorem Sound.rightAt (h : x.Sound D log past) (hapart : Holdings.LabelsApart x.updateOf log)
    (hkey : ∀ e ∈ log, x.secret.label e.key = x.secret.label key → e.key = key) (ht : t ∈ past)
    {proof : Option LabelProof} {a : Answer}
    (ha : Dictionary.Resolves (D.service.holdings x.site).elements key
      (t.lookup (x.secret.label key)) proof a) : a.RightAt x log key t := by
  have hleaf := Trie.leaf_lookup (h.coherent t ht) (x.secret.label key)
  cases ha with
  | @member element hmember helement =>
    obtain ⟨e, he, hek, hupdate, hstored, -⟩ := h.entry_of_member hapart hkey ht hmember
    constructor
    · rfl
    · rfl
    · exact ⟨fun _ => ⟨e, he, hek, hupdate⟩, fun _ => rfl⟩
    · intro f hf hfk _
      have hsame : f = e :=
        List.inj_on_of_nodup_map h.balanced.stored.distinct hf he (hfk.trans hek.symm)
      obtain rfl : element = e.element := Option.some.inj (helement.symm.trans hstored)
      rw [hsame]
      rfl
  | absent hmember =>
    constructor
    · rfl
    · rfl
    · constructor
      · intro h
        contradiction
      · rintro ⟨e, he, rfl, hupdate⟩
        rw [LookupPath.isMember, hleaf, Trie.mem_updates.1 hupdate] at hmember
        contradiction
    · intro _ _ _ h
      contradiction

theorem Sound.verify (h : x.Sound D log past) (hapart : Holdings.LabelsApart x.updateOf log)
    (hkey : ∀ e ∈ log, x.secret.label e.key = x.secret.label key → e.key = key)
    (hproper : ∀ k, x.secret = .verifiable k → k.Proper) (ht : t ∈ past) {a : Answer}
    (ha : Dictionary.Resolves (D.service.holdings x.site).elements key
      (t.lookup (x.secret.label key)) (x.secret.derive key).proof a) :
    a.verify key a.path.root x.secret.publicKey x.pinned.commitmentScheme = true := by
  have hpath := Trie.verify_lookup (h.coherent t ht) (x.secret.label key)
  unfold Answer.verify
  simp only [Bool.and_eq_true]
  cases ha with
  | @member element hmember helement =>
    obtain ⟨e, he, -, -, hstored, hleaf⟩ := h.entry_of_member hapart hkey ht hmember
    obtain rfl : element = e.element := Option.some.inj (helement.symm.trans hstored)
    refine ⟨⟨?_, hpath⟩, Answer.opens_member.2 hleaf⟩
    exact x.labelHolds hproper rfl rfl
  | absent hmember =>
    refine ⟨⟨?_, hpath⟩, Answer.opens_absent.2 ?_⟩
    · exact x.labelHolds hproper rfl rfl
    · simpa [LookupPath.isMember] using hmember

end Setting

namespace Deployment

variable {x : Setting} {D : Deployment} {log : List Entry} {past : List Trie}

/-- In every state of every run, the answer to a query passes the check and tells what a trie that
was current in the run has for the key. No query finds a member without its element. -/
theorem query_sound (h : Reaches x D log past) (hstorage : x.queryStorage = x.storage)
    {d : Dictionary} (hd : d ∈ D.handles) (key : Bytes) (pick : UInt8)
    (hlabels : Set.InjOn x.secret.label (insert key (D.storedKeys x)))
    (hproper : ∀ k, x.secret = .verifiable k → k.Proper) :
    (∀ a, (Dictionary.query key pick (d, D.service)).1 = .ok a →
      a.verify key a.path.root d.publicKey d.config.commitmentScheme = true ∧
        ∃ t ∈ past, a.RightAt x log key t) ∧
      ∀ label id,
        (Dictionary.query key pick (d, D.service)).1 ≠ .error (.missingElement label id) := by
  have hsound := Setting.Sound.of_reaches h
  have howns := hsound.handles d hd
  have hapart := labelsApart_of_injOn h (Set.InjOn.mono (Set.subset_insert key _) hlabels)
  have hkey : ∀ e ∈ log, x.secret.label e.key = x.secret.label key → e.key = key := by
    intro e he hlabel
    exact hlabels (.inr ((mem_storedKeys h).2 ⟨e, he, rfl⟩)) (.inl rfl) hlabel
  have helements : d.queryElements D.service = (D.service.holdings x.site).elements := by
    funext k
    rw [Dictionary.queryElements, howns.queryStorage, howns.id, hstorage]
    rfl
  obtain ⟨-, hok, herror⟩ := Dictionary.query_ensures howns.id (Setting.holds_source hsound.current)
    key pick (d, D.service) (howns.looking hsound.pool)
  simp only [helements, howns.secret, Querier.answer_eq_lookup] at hok herror
  constructor
  · intro a ha
    obtain ⟨t, ht, hresolves⟩ := hok a ha
    have hpast := ht hstorage
    rw [Dictionary.publicKey, howns.secret, howns.config]
    exact ⟨hsound.verify hapart hkey hproper hpast hresolves, _, hpast,
      hsound.rightAt hapart hkey hpast hresolves⟩
  · intro label id he
    rcases herror _ he with hlookup | ⟨t, ht, hfault⟩
    · exact hlookup
    · cases hfault with
      | missing _ hmember hnone =>
        obtain ⟨e, -, -, -, hstored, -⟩ := hsound.entry_of_member hapart hkey (ht hstorage) hmember
        rw [hstored] at hnone
        contradiction

def sampleAnswer (key : Bytes) : Except Error Answer :=
  (Dictionary.query key 0 (sampleHandle, sampleAfter.service)).1

/-- One key is a member, one waits to become one, and one was never inserted. -/
theorem query_sound_sampleAfter :
    ∃ past, Reaches sampleSetting sampleAfter [sampleEntry, sampleOther] past ∧
      ∀ key ∈ [sampleEntry.key, sampleOther.key, sampleUnknown],
        ∃ a, sampleAnswer key = .ok a ∧ a.isMember = decide (key = sampleEntry.key) ∧
          a.verify key a.path.root sampleHandle.publicKey
            sampleHandle.config.commitmentScheme = true ∧
          ∃ t ∈ past, a.RightAt sampleSetting [sampleEntry, sampleOther] key t := by
  obtain ⟨past, hrun⟩ := reaches_sampleAfter
  have hmember : ∀ key ∈ [sampleEntry.key, sampleOther.key, sampleUnknown],
      (sampleAnswer key).map Answer.isMember = .ok (decide (key = sampleEntry.key)) := by
    decide +kernel
  have hplain : sampleSetting.secret = .plain (Preimage.secretSeed (Block.zero 32)).digest := rfl
  have hproper : ∀ k, sampleSetting.secret = .verifiable k → k.Proper := by
    intro k hk
    simp only [hplain, reduceCtorEq] at hk
  refine ⟨past, hrun, fun key hkey => ?_⟩
  have hkeys : insert key (sampleAfter.storedKeys sampleSetting) ⊆
      {sampleEntry.key, sampleOther.key, sampleUnknown} :=
    Set.insert_subset (by simpa using hkey) ((storedKeys_subset hrun).trans sampleKeys_subset)
  obtain ⟨a, hok, hmember⟩ := Action.exists_of_map_eq_ok (hmember key hkey)
  obtain ⟨hverify, hright⟩ := (query_sound hrun rfl List.mem_cons_self key 0
    (injOn_sampleAll.mono hkeys) hproper).1 a hok
  exact ⟨a, hok, hmember, hverify, hright⟩

end Deployment

end AuthDict
