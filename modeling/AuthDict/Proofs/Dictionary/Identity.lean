import AuthDict.Proofs.Dictionary.Building
import AuthDict.Proofs.Dictionary.Deployment

/-!
# What a dictionary keeps for life

A handle is built fresh or restored from a record, and then it is used. Whatever the way, a record
can carry its identity: a plain secret follows from the seed in the configuration, and a verifiable
one is written beside it. The record that was read need not be one that was saved, since the
configuration in it can be written in other ways, but the one that is saved has one form only. So
saving and loading again leads to the same identifier, configuration, labels and record.
-/
namespace AuthDict.Dictionary

/-- The handles that come about. -/
inductive Obtained : Dictionary → Prop
  | built {b : Blueprint} {draws : Draws} {hasRuntime : Bool} {s s' : Service} {d : Dictionary} :
      b.restored = none → b.build draws hasRuntime s = (.ok d, s') → Obtained d
  | loaded {registry : RegistryRef} {data : Bytes} {b : Blueprint}
      {storage : StorageChoice StorageRef} {hook : Option HookRef} {draws : Draws}
      {hasRuntime : Bool} {s s' : Service} {d : Dictionary} :
      Blueprint.ofSnapshot registry data = .ok b →
      Blueprint.build { b with storage, hook } draws hasRuntime s = (.ok d, s') → Obtained d
  | used {d d' : Dictionary} {s s' : Service} {es : List Entry} :
      Obtained d → d.Call s es d' s' → Obtained d'

/-- What holds of a handle at all times. -/
structure Sound (d : Dictionary) : Prop where
  savable : Savable d.config d.secret
  config : d.config.fault? = none
  cache : d.cache.Sound d.secret
  updater : d.updater.Serves d.site d.config.onApplyFailure

variable {d d' : Dictionary} {s s' : Service}

theorem sound_opened {b : Blueprint} {draws : Draws} {storage queryStorage : StorageRef}
    {scheduler : Option SchedulerRef}
    (hsavable : Savable (b.identity draws).1 (b.identity draws).2.1)
    (hconfig : (b.identity draws).1.fault? = none) :
    (b.opened draws storage queryStorage scheduler).Sound where
  savable := hsavable
  config := hconfig
  cache := LabelCache.sound_empty _ _
  updater := ⟨rfl, rfl, rfl⟩

theorem fault?_pinSeed (config : Config) (seed : Seed) :
    (Blueprint.pinSeed config seed).fault? = config.fault? := by
  unfold Blueprint.pinSeed
  split <;> rfl

theorem sound_built {b : Blueprint} {draws : Draws} {hasRuntime : Bool} (hb : b.restored = none)
    (h : b.build draws hasRuntime s = (.ok d, s')) : d.Sound := by
  rcases Blueprint.build_cases h with ⟨_, hr, -⟩ | ⟨_, _, _, hchecked, hr, -⟩
  · simp at hr
  · obtain rfl := Except.ok.inj hr
    obtain ⟨hfault, -⟩ := Blueprint.checked_eq_ok_iff.1 hchecked
    have hidentity : b.identity draws = (Blueprint.pinSeed b.config draws.labelSeed,
        Blueprint.freshSecret (Blueprint.pinSeed b.config draws.labelSeed) draws, draws.id) := by
      rw [Blueprint.identity, hb]
    apply sound_opened
    · rw [hidentity]
      exact Blueprint.savable_fresh b.config draws
    · rw [hidentity]
      exact (fault?_pinSeed ..).trans hfault

theorem sound_loaded {registry : RegistryRef} {data : Bytes} {b : Blueprint}
    {storage : StorageChoice StorageRef} {hook : Option HookRef} {draws : Draws} {hasRuntime : Bool}
    (hb : Blueprint.ofSnapshot registry data = .ok b)
    (h : Blueprint.build { b with storage, hook } draws hasRuntime s = (.ok d, s')) : d.Sound := by
  obtain ⟨config, secret, id, rfl, hsavable⟩ := Blueprint.savable_of_ofSnapshot hb
  rcases Blueprint.build_cases h with ⟨_, hr, -⟩ | ⟨_, _, _, hchecked, hr, -⟩
  · simp at hr
  · obtain rfl := Except.ok.inj hr
    obtain ⟨hfault, -⟩ := Blueprint.checked_eq_ok_iff.1 hchecked
    exact sound_opened hsavable hfault

/-- A handle that differs in its cache and its router only. -/
def Alike (d : Dictionary) (st : Dictionary × Service) : Prop :=
  ∃ cache router, st.1 = { d with cache, router } ∧ cache.Sound d.secret

theorem deriveLabel_alike (d : Dictionary) (key : Bytes) :
    Action.Ensures d.Alike (deriveLabel key) (fun l => l = d.secret.derive key) fun _ => True := by
  rintro ⟨d', s⟩ ⟨cache, router, rfl, hcache⟩
  refine ⟨⟨_, router, rfl, hcache.derive_snd key⟩, ?_, fun _ _ => trivial⟩
  intro l hl
  rw [← hcache.derive_fst key]
  exact (Except.ok.inj hl).symm

theorem deriveLabels_alike (d : Dictionary) (keys : List Bytes) :
    Action.Ensures d.Alike (deriveLabels keys) (fun _ => True) fun _ => True := by
  induction keys with
  | nil => exact .pure trivial
  | cons key keys ih =>
    exact (d.deriveLabel_alike key).bind fun _ _ => ih.bind fun _ _ => .pure trivial

theorem onRouter_alike {α : Type} (d : Dictionary)
    (x : DictionaryId → Action (Router × ReadSide) α) :
    Action.Ensures d.Alike (onRouter x) (fun _ => True) fun _ => True := by
  rintro ⟨d', s⟩ ⟨cache, router, rfl, hcache⟩
  exact ⟨⟨cache, _, rfl, hcache⟩, fun _ _ => trivial, fun _ _ => trivial⟩

theorem onService_alike {α : Type} (d : Dictionary) (x : Dictionary → Action Service α) :
    Action.Ensures d.Alike (onService x) (fun _ => True) fun _ => True := by
  rintro ⟨d', s⟩ ⟨cache, router, rfl, hcache⟩
  exact ⟨⟨cache, router, rfl, hcache⟩, fun _ _ => trivial, fun _ _ => trivial⟩

theorem query_alike (d : Dictionary) (key : Bytes) (pick : UInt8) :
    Action.Ensures d.Alike (query key pick) (fun _ => True) fun _ => True :=
  (d.deriveLabel_alike key).bind fun _ _ =>
    (d.onRouter_alike _).bind fun _ _ => d.onService_alike _

theorem queryMany_alike (d : Dictionary) (keys : List Bytes) (pick : UInt8) :
    Action.Ensures d.Alike (queryMany keys pick) (fun _ => True) fun _ => True :=
  (d.deriveLabels_alike keys).bind fun _ _ =>
    (d.onRouter_alike _).bind fun _ _ => d.onService_alike _

/-- A call leaves all of a handle but its cache and its router. -/
theorem Call.alike {es : List Entry} (h : d.Call s es d' s') (hd : d.cache.Sound d.secret) :
    d.Alike (d', s') := by
  have hsame : d.Alike (d, s) := ⟨d.cache, d.router, rfl, hd⟩
  cases h with
  | insert _ => exact hsame
  | insertFailed _ => exact hsame
  | insertBatch _ => exact hsame
  | apply _ => exact hsame
  | @query key pick _ _ _ h =>
    have hafter := (d.query_alike key pick (d, s) hsame).1
    rwa [h] at hafter
  | @queryMany keys pick _ _ _ h =>
    have hafter := (d.queryMany_alike keys pick (d, s) hsame).1
    rwa [h] at hafter
  | checkForUpdate h =>
    have hafter := (d.onRouter_alike Router.checkForUpdate (d, s) hsame).1
    rw [show onRouter Router.checkForUpdate (d, s) = _ from h] at hafter
    exact hafter

theorem Sound.call {es : List Entry} (hd : d.Sound) (h : d.Call s es d' s') : d'.Sound := by
  obtain ⟨cache, router, rfl, hcache⟩ := h.alike hd.cache
  exact ⟨hd.savable, hd.config, hcache, hd.updater⟩

theorem Obtained.sound (h : d.Obtained) : d.Sound := by
  induction h with
  | built hb h => exact sound_built hb h
  | loaded hb h => exact sound_loaded hb h
  | used _ hcall ih => exact ih.call hcall

/-- A label is derived from the key and the secret alone. -/
theorem Sound.deriveLabel_fst (hd : d.Sound) (key : Bytes) (s : Service) :
    (deriveLabel key (d, s)).1 = .ok (d.secret.derive key) := by
  rw [deriveLabel, Action.total_apply]
  exact congrArg _ (hd.cache.derive_fst key)

theorem commitInterval_ne_zero {config : Config} (h : config.fault? = none) :
    config.commitInterval ≠ some .zero := by
  intro hzero
  unfold Config.fault? at h
  split at h
  · contradiction
  · split at h
    · contradiction
    · contradiction

/-- A saved dictionary can be loaded into a live registry. -/
theorem Sound.exists_load (hd : d.Sound) {registry : RegistryRef}
    {choice : StorageChoice StorageRef} {ref : StorageRef} {hasRuntime : Bool}
    (hwrite : choice.write = some ref) (hlive : (s.registry registry).isShutDown = false)
    (hruntime : d.config.commitInterval.isSome = true → hasRuntime = true) (hook : Option HookRef)
    (draws : Draws) :
    ∃ b d' s', Blueprint.ofSnapshot registry d.save = .ok b ∧
      Blueprint.build { b with storage := choice, hook } draws hasRuntime s = (.ok d', s') ∧
      d'.id = d.id ∧ d'.config = d.config ∧ d'.secret = d.secret := by
  let b : Blueprint :=
    { config := d.config, storage := choice, registry, hook, restored := some (d.secret, d.id) }
  have hwriteStorage : choice.writeStorage = .ok ref := by
    rw [StorageChoice.writeStorage, hwrite]
  have hqueryStorage : choice.queryStorage = .ok (choice.query.getD ref) := by
    unfold StorageChoice.queryStorage
    cases choice.query with
    | some _ => rfl
    | none => exact hwriteStorage
  have hchecked : b.checked s = .ok (ref, choice.query.getD ref) :=
    Blueprint.checked_eq_ok_iff.2 ⟨hd.config, hwriteStorage, hqueryStorage, hlive⟩
  have hzero : (b.identity draws).1.commitInterval ≠ some .zero :=
    commitInterval_ne_zero hd.config
  obtain ⟨scheduler, s', hbuild⟩ := Blueprint.exists_build hchecked hzero hruntime
  exact ⟨_, _, s', ofSnapshot_save hd.savable registry, hbuild, rfl, rfl, rfl⟩

/-- A saved dictionary can be loaded into any live registry, and what is loaded has the same
identifier, configuration, public key, labels and label proofs, and is saved as the same bytes. -/
theorem Obtained.load_save (hd : d.Obtained) {registry : RegistryRef}
    {choice : StorageChoice StorageRef} {ref : StorageRef} {hasRuntime : Bool}
    (hwrite : choice.write = some ref) (hlive : (s.registry registry).isShutDown = false)
    (hruntime : d.config.commitInterval.isSome = true → hasRuntime = true) (hook : Option HookRef)
    (draws : Draws) :
    ∃ b d' s', Blueprint.ofSnapshot registry d.save = .ok b ∧
      Blueprint.build { b with storage := choice, hook } draws hasRuntime s = (.ok d', s') ∧
      d'.id = d.id ∧ d'.config = d.config ∧ d'.publicKey = d.publicKey ∧
      (∀ key t t', (deriveLabel key (d', t')).1 = (deriveLabel key (d, t)).1) ∧
      d'.save = d.save := by
  obtain ⟨b, d', s', hb, hbuild, hid, hconfig, hsecret⟩ :=
    hd.sound.exists_load hwrite hlive hruntime hook draws
  have hd' : d'.Sound := sound_loaded hb hbuild
  refine ⟨b, d', s', hb, hbuild, hid, hconfig, ?_, ?_, ?_⟩
  · rw [publicKey, publicKey, hsecret]
  · intro key t t'
    rw [hd'.deriveLabel_fst, hd.sound.deriveLabel_fst, hsecret]
  · rw [save, save, hid, hconfig, hsecret]

/-- A record that no dictionary saves: its seed is written in upper case after `0x`, its interval has
more than a second of nanoseconds, and a byte follows. -/
def sampleRecord : Snapshot where
  configBlob :=
    leBytes 4 0 ++ leBytes 4 0 ++ leBytes 4 0
      ++ 1 :: (leBytes 8 66 ++ Preimage.ascii ('0' :: 'x' :: List.replicate 64 'A'))
      ++ leBytes 8 1024 ++ leBytes 8 1 ++ leBytes 8 4
      ++ 1 :: (leBytes 8 0 ++ leBytes 4 1000000001) ++ leBytes 4 0 ++ [7]
  secretKey := none
  id := Block.zero 16

def sampleConfig : Config where
  labelSeed := some ⟨List.replicate 32 0xaa, by simp⟩
  commitInterval := some ⟨1, 1, by decide⟩

def sampleLoaded : Blueprint where
  config := sampleConfig
  registry := 0
  restored := some (.ofSeed .plain ⟨List.replicate 32 0xaa, by simp⟩, Block.zero 16)

def sampleDictionary : Dictionary :=
  Blueprint.opened { sampleLoaded with storage := ⟨some 0, none⟩, hook := none }
    ⟨Block.zero 32, Block.zero 32, Block.zero 16⟩ 0 0 (some 0)

theorem load_save_sampleDictionary :
    sampleDictionary.Obtained ∧ Blueprint.ofSnapshot 0 sampleRecord.toBytes = .ok sampleLoaded ∧
      sampleRecord.toBytes ≠ sampleDictionary.save ∧
      ∃ b d' s', Blueprint.ofSnapshot 3 sampleDictionary.save = .ok b ∧
        Blueprint.build { b with storage := ⟨some 2, none⟩, hook := none }
          ⟨Block.zero 32, Block.zero 32, Block.zero 16⟩ true {} = (.ok d', s') ∧
        d'.save = sampleDictionary.save := by
  have hbytes : Snapshot.ofBytes sampleRecord.toBytes = .ok sampleRecord :=
    Snapshot.ofBytes_toBytes ⟨rfl, by simp [sampleRecord], by decide +kernel⟩
  have hconfig : Binary.decode sampleRecord.configBlob = .ok sampleConfig := by decide +kernel
  have hread : Blueprint.ofSnapshot 0 sampleRecord.toBytes = .ok sampleLoaded :=
    Blueprint.ofSnapshot_ok hbytes hconfig rfl
  have hbuild : Blueprint.build { sampleLoaded with storage := ⟨some 0, none⟩, hook := none }
      ⟨Block.zero 32, Block.zero 32, Block.zero 16⟩ true {} = (.ok sampleDictionary, _) := rfl
  have hobtained : sampleDictionary.Obtained := .loaded hread hbuild
  have hwrite : (⟨some 2, none⟩ : StorageChoice StorageRef).write = some 2 := rfl
  have hlive : (({} : Service).registry 3).isShutDown = false := rfl
  obtain ⟨b, d', s', hb, hbuild, -, -, -, -, hsave⟩ := hobtained.load_save hwrite hlive
    (fun _ => rfl) none ⟨Block.zero 32, Block.zero 32, Block.zero 16⟩
  exact ⟨hobtained, hread, by decide +kernel, b, d', s', hb, hbuild, hsave⟩

end AuthDict.Dictionary
