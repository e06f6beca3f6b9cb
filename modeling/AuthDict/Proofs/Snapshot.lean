import AuthDict.Dictionary.Build
import AuthDict.Proofs.Binary.RoundTrip

/-!
# Saved dictionaries

A record is read back as it was written, and so a saved dictionary is restored with its
configuration, its secret and its identifier. The identity of a dictionary is `Savable` if a
snapshot can carry it; a fresh one always is.
-/
namespace AuthDict

namespace Snapshot

/-- The next field is taken off the input. -/
theorem takeField_bind {α : Type} (field : SnapshotField) {n : Nat} {bs : Bytes}
    (h : bs.length = n) (rest : Bytes) (f : Bytes → StateT Bytes (Except SnapshotFault) α) :
    (takeField field n >>= f) (bs ++ rest) = f bs rest := by
  subst h
  have htake : takeField field bs.length (bs ++ rest) = .ok (bs, rest) := by
    simp [takeField]
  change (takeField field bs.length (bs ++ rest) >>= fun p => f p.1 p.2) = _
  rw [htake]
  rfl

theorem takeBlock_bind {α : Type} (field : SnapshotField) {n : Nat} (b : Block n) (rest : Bytes)
    (f : Block n → StateT Bytes (Except SnapshotFault) α) :
    (takeBlock field n >>= f) (b.bytes ++ rest) = f b rest := by
  obtain ⟨bs, rfl⟩ := b
  have htake : takeBlock field bs.length (bs ++ rest) = .ok (⟨bs, rfl⟩, rest) := by
    simp [takeBlock]
  change (takeBlock field bs.length (bs ++ rest) >>= fun p => f p.1 p.2) = _
  rw [htake]
  rfl

/-- The written form of an optional secret key. -/
def secretKeyBytes : Option Bytes → Bytes
  | some key => 1 :: (leBytes 4 key.length ++ key)
  | none => [0]

theorem readSecretKey_bytes {key : Option Bytes}
    (hkey : ∀ bs ∈ key, bs.length = secretKeyLength) (rest : Bytes) :
    readSecretKey (secretKeyBytes key ++ rest) = .ok (key, rest) := by
  unfold readSecretKey secretKeyBytes
  cases key with
  | none => exact takeField_bind .secretKeyFlag (show [0].length = 1 from rfl) rest _
  | some bs =>
    have hlen := hkey bs rfl
    refine (takeField_bind .secretKeyFlag (show [1].length = 1 from rfl)
      (leBytes 4 bs.length ++ bs ++ rest) _).trans ?_
    rw [List.append_assoc]
    apply (takeField_bind .secretKeyLength (length_leBytes 4 _) _ _).trans
    simp only [hlen, ne_eq]
    exact takeField_bind .secretKey hlen rest _

theorem readSecretKey_bind {α : Type} {key : Option Bytes}
    (hkey : ∀ bs ∈ key, bs.length = secretKeyLength) (rest : Bytes)
    (f : Option Bytes → StateT Bytes (Except SnapshotFault) α) :
    (readSecretKey >>= f) (secretKeyBytes key ++ rest) = f key rest := by
  change (readSecretKey (secretKeyBytes key ++ rest) >>= fun p => f p.1 p.2) = _
  rw [readSecretKey_bytes hkey]
  rfl

/-- Records that the format can carry. -/
structure Writable (s : Snapshot) : Prop where
  version : s.version = currentVersion
  secretKey : ∀ bs ∈ s.secretKey, bs.length = secretKeyLength
  length : s.toBytes.length < 2 ^ 32

theorem toBytes_eq (s : Snapshot) :
    s.toBytes = magicBytes ++ (leBytes 2 s.version ++ (leBytes 4 s.toBytes.length ++
      (leBytes 4 s.configBlob.length ++ (s.configBlob ++ (secretKeyBytes s.secretKey ++
        (s.id.bytes ++ [])))))) := by
  have hlen : s.toBytes.length = headLength + s.body.length := by
    simp only [toBytes, magicBytes, headLength, List.length_append, length_leBytes,
      List.length_cons, List.length_nil]
  rw [hlen]
  simp only [toBytes, body, List.append_assoc, List.append_nil]
  rfl

theorem ofBytes_toBytes {s : Snapshot} (hs : s.Writable) : ofBytes s.toBytes = .ok s := by
  have hhead : ¬s.toBytes.length < headLength := by
    simp only [toBytes, magicBytes, headLength, List.length_append, length_leBytes,
      List.length_cons, List.length_nil]
    omega
  have htotal : ofLE (leBytes 4 s.toBytes.length) = s.toBytes.length := by
    rw [ofLE_leBytes]
    exact Nat.mod_eq_of_lt hs.length
  have hblob : ofLE (leBytes 4 s.configBlob.length) = s.configBlob.length := by
    have hle : s.configBlob.length ≤ s.toBytes.length := by
      rw [s.toBytes_eq]
      simp only [List.length_append]
      omega
    rw [ofLE_leBytes]
    exact Nat.mod_eq_of_lt (Nat.lt_of_le_of_lt hle hs.length)
  have hversion : ofLE (leBytes 2 s.version) = currentVersion := by
    rw [hs.version]
    rfl
  have hread : read s.toBytes.length s.toBytes = .ok (s, []) := by
    have heq := s.toBytes_eq
    generalize s.toBytes.length = n at heq htotal ⊢
    rw [heq, read]
    apply (takeField_bind .magic (show magicBytes.length = 4 from rfl) _ _).trans
    simp only [ne_eq, not_true_eq_false, if_false]
    apply (takeField_bind .version (length_leBytes 2 _) _ _).trans
    simp only [hversion, not_true_eq_false, if_false]
    apply (takeField_bind .totalLength (length_leBytes 4 _) _ _).trans
    simp only [htotal, not_true_eq_false, if_false]
    apply (takeField_bind .configLength (length_leBytes 4 _) _ _).trans
    rw [hblob]
    apply (takeField_bind .configBlob rfl _ _).trans
    apply (readSecretKey_bind hs.secretKey _ _).trans
    apply (takeBlock_bind .dictionaryId s.id _ _).trans
    rw [← hs.version]
    rfl
  rw [ofBytes, if_neg hhead, hread]
  rfl

end Snapshot

/-- A snapshot can carry the secret: it follows from the configuration, or its key is saved. -/
structure Savable (config : Config) (secret : LabelSecret Ristretto) : Prop where
  secret : Blueprint.secretOf config (secret.secretKey.map (·.bytes)) = .ok secret

namespace Blueprint

theorem ofSnapshot_ok {registry : RegistryRef} {data : Bytes} {snapshot : Snapshot}
    {config : Config} {secret : LabelSecret Ristretto} (hread : Snapshot.ofBytes data = .ok snapshot)
    (hconfig : Binary.decode snapshot.configBlob = .ok config)
    (hsecret : secretOf config snapshot.secretKey = .ok secret) :
    ofSnapshot registry data =
      .ok { config, registry, restored := some (secret, snapshot.id) } := by
  simp only [ofSnapshot, hread, hconfig, hsecret, bind, Except.bind]
  rfl

theorem secretOf_verifiable {config : Config} (h : config.labelScheme = .verifiable)
    (bytes : Seed) :
    secretOf config ((LabelSecret.ofBytes (G := Ristretto) .verifiable bytes).secretKey.map
      (·.bytes)) = .ok (.ofBytes .verifiable bytes) := by
  simp [secretOf, h, LabelSecret.ofBytes, LabelSecret.secretKey, ProofKey.ofSeed]

theorem secretOf_plain {config : Config} {seed : Seed} (h : config.labelScheme = .plain)
    (hseed : config.labelSeed = some seed) :
    secretOf config ((LabelSecret.ofSeed (G := Ristretto) .plain seed).secretKey.map (·.bytes)) =
      .ok (.ofSeed .plain seed) := by
  simp [secretOf, h, hseed, LabelSecret.ofSeed, LabelSecret.ofBytes, LabelSecret.secretKey]

theorem labelScheme_pinSeed (config : Config) (seed : Seed) :
    (pinSeed config seed).labelScheme = config.labelScheme := by
  unfold pinSeed
  split <;> rfl

theorem labelSeed_pinSeed {config : Config} (h : config.labelScheme = .plain) (seed : Seed) :
    ∃ pinned, (pinSeed config seed).labelSeed = some pinned := by
  unfold pinSeed
  cases hs : config.labelSeed with
  | none => exact ⟨seed, by simp [h]⟩
  | some pinned => exact ⟨pinned, by simp [hs]⟩

theorem savable_fresh (config : Config) (draws : Draws) :
    Savable (pinSeed config draws.labelSeed)
      (freshSecret (pinSeed config draws.labelSeed) draws) := by
  have hscheme := labelScheme_pinSeed config draws.labelSeed
  constructor
  cases h : config.labelScheme with
  | verifiable =>
    rw [h] at hscheme
    unfold freshSecret
    rw [hscheme]
    split
    · exact secretOf_verifiable hscheme _
    · exact secretOf_verifiable hscheme _
  | plain =>
    rw [h] at hscheme
    obtain ⟨seed, hseed⟩ := labelSeed_pinSeed h draws.labelSeed
    unfold freshSecret
    rw [hscheme, hseed]
    exact secretOf_plain hscheme hseed

/-- The secret of a record can be saved again. -/
theorem savable_of_secretOf {config : Config} {key : Option Bytes} {secret : LabelSecret Ristretto}
    (h : secretOf config key = .ok secret) : Savable config secret := by
  constructor
  unfold secretOf at h
  split at h
  · next hscheme =>
    split at h
    · next bytes _ =>
      obtain rfl := Except.ok.inj h
      exact secretOf_verifiable hscheme bytes
    · contradiction
  · next hscheme =>
    split at h
    · next seed hseed =>
      obtain rfl := Except.ok.inj h
      exact secretOf_plain hscheme hseed
    · contradiction
  · contradiction

/-- What is restored from any record that is accepted can be saved again. -/
theorem savable_of_ofSnapshot {registry : RegistryRef} {data : Bytes} {b : Blueprint}
    (h : ofSnapshot registry data = .ok b) :
    ∃ config secret id, b = { config, registry, restored := some (secret, id) } ∧
      Savable config secret := by
  unfold ofSnapshot at h
  cases hread : Snapshot.ofBytes data with
  | error fault =>
    rw [hread] at h
    contradiction
  | ok snapshot =>
    simp only [hread, bind, Except.bind] at h
    split at h
    · contradiction
    · next config _ =>
      cases hsecret : secretOf config snapshot.secretKey with
      | error fault =>
        rw [hsecret] at h
        contradiction
      | ok secret =>
        rw [hsecret] at h
        exact ⟨config, secret, snapshot.id, (Except.ok.inj h).symm, savable_of_secretOf hsecret⟩

end Blueprint

/-- A configuration's binary form is short. -/
theorem Config.length_encode_le (c : Config) : (Binary.encode c).length ≤ 200 := by
  have hseed : (SeedText.encode c.labelSeed).length ≤ 73 := by
    cases c.labelSeed with
    | none => decide
    | some seed =>
      simp [SeedText.encode, SeedText.write, Utf8.length_encode_ascii (Hex.chars_ascii _),
        Hex.length_chars, seed.length_eq]
  have hinterval : (Binary.encode c.commitInterval).length ≤ 13 := by
    cases c.commitInterval with
    | none => decide
    | some d => simp [Binary.encode, BinaryForm.encode]
  have hu64 (n : UInt64) : (Binary.encode n).length = 8 := length_leBytes ..
  have hcommit : (Binary.encode c.commitmentScheme).length = 4 := length_leBytes ..
  have hlabel : (Binary.encode c.labelScheme).length = 4 := length_leBytes ..
  have hmode : (Binary.encode c.queryMode).length = 4 := length_leBytes ..
  have hpolicy : (Binary.encode c.onApplyFailure).length = 4 := length_leBytes ..
  have hencode : Binary.encode c =
      Binary.encode c.commitmentScheme ++ Binary.encode c.labelScheme ++ Binary.encode c.queryMode
        ++ SeedText.encode c.labelSeed ++ Binary.encode c.labelCacheSize
        ++ Binary.encode c.threadCount ++ Binary.encode c.querierPoolSize
        ++ Binary.encode c.commitInterval ++ Binary.encode c.onApplyFailure := rfl
  rw [hencode]
  simp only [List.length_append, hu64, hcommit, hlabel, hmode, hpolicy]
  omega

namespace Dictionary

theorem writable_save (d : Dictionary) :
    Snapshot.Writable
      { configBlob := Binary.encode d.config
        secretKey := d.secret.secretKey.map (·.bytes)
        id := d.id } where
  version := rfl
  secretKey bs hbs := by
    obtain ⟨seed, -, rfl⟩ := Option.map_eq_some_iff.1 hbs
    exact seed.length_eq
  length := by
    have hconfig := d.config.length_encode_le
    rw [Snapshot.toBytes_eq]
    cases d.secret.secretKey with
    | none =>
      simp only [Snapshot.secretKeyBytes, Snapshot.magicBytes, List.length_append, length_leBytes,
        List.length_cons, List.length_nil, d.id.length_eq, Option.map_none]
      omega
    | some seed =>
      simp only [Snapshot.secretKeyBytes, Snapshot.magicBytes, List.length_append, length_leBytes,
        List.length_cons, List.length_nil, d.id.length_eq, Option.map_some, seed.length_eq]
      omega

/-- What is restored from a saved dictionary is its configuration, secret and identifier. -/
theorem ofSnapshot_save {d : Dictionary} (hd : Savable d.config d.secret) (registry : RegistryRef) :
    Blueprint.ofSnapshot registry d.save =
      .ok { config := d.config, registry, restored := some (d.secret, d.id) } :=
  Blueprint.ofSnapshot_ok (Snapshot.ofBytes_toBytes d.writable_save)
    (LawfulBinaryForm.decode_encode d.config) hd.secret

end Dictionary

end AuthDict
