import AuthDict.Proofs.Snapshot

/-!
# Accepted records

The parser takes its input apart into the fields that the encoder puts together. A reader `Takes`
the written form of what it returns off the front of the input, and then every length that was read
is that of a field: the ones inside the record because the field has as many bytes, the one of the
whole record because nothing is left at the end. So a byte string is accepted only if it is the
written form of the record that is returned.
-/
namespace AuthDict.Snapshot

variable {α β : Type} {bs rest : Bytes} {r : β × Bytes}

/-- What is returned has a property, and its written form is taken off the input. -/
def Takes (x : StateT Bytes (Except SnapshotFault) α) (written : α → Bytes) (P : α → Prop) : Prop :=
  ∀ ⦃bs rest : Bytes⦄ ⦃a : α⦄, x bs = .ok (a, rest) → bs = written a ++ rest ∧ P a

/-- A reader followed by another returns something only if both do. -/
theorem Takes.bind_ok {x : StateT Bytes (Except SnapshotFault) α} {written : α → Bytes}
    {P : α → Prop} (hx : Takes x written P) {f : α → StateT Bytes (Except SnapshotFault) β}
    (h : (x >>= f) bs = .ok r) : ∃ a rest, bs = written a ++ rest ∧ P a ∧ f a rest = .ok r := by
  change (x bs >>= fun p => f p.1 p.2) = .ok r at h
  cases hread : x bs with
  | error e =>
    rw [hread] at h
    contradiction
  | ok p =>
    rw [hread] at h
    obtain ⟨hbs, ha⟩ := hx hread
    exact ⟨p.1, p.2, hbs, ha, h⟩

/-- What comes after a check is reached only if the check is passed. -/
theorem check_ok {c : Prop} [Decidable c] {fault : SnapshotFault}
    {f : Unit → StateT Bytes (Except SnapshotFault) β}
    (h : (if c then throw fault >>= f else f ()) bs = .ok r) : ¬c ∧ f () bs = .ok r := by
  split at h
  · contradiction
  · next hc => exact ⟨hc, h⟩

theorem takes_field (field : SnapshotField) (n : Nat) :
    Takes (takeField field n) (fun bs => bs) (·.length = n) := by
  intro bs rest x h
  unfold takeField at h
  split at h
  · contradiction
  · next hle =>
    cases h
    exact ⟨(List.take_append_drop n bs).symm, List.length_take_of_le (Nat.not_lt.1 hle)⟩

theorem takes_block (field : SnapshotField) (n : Nat) :
    Takes (takeBlock field n) Block.bytes fun _ => True := by
  intro bs rest b h
  unfold takeBlock at h
  split at h
  · cases h
    exact ⟨(List.take_append_drop n bs).symm, trivial⟩
  · contradiction

/-- The four bytes of a length that is that of what follows are its written form. -/
theorem eq_leBytes {size field : Bytes} {n : Nat} (hsize : size.length = n)
    (hfield : field.length = ofLE size) : size = leBytes n field.length := by
  rw [hfield, ← hsize]
  exact (leBytes_ofLE size).symm

theorem takes_secretKey :
    Takes readSecretKey secretKeyBytes fun key => ∀ bs ∈ key, bs.length = secretKeyLength := by
  intro bs rest key h
  unfold readSecretKey at h
  obtain ⟨flag, _, rfl, -, h⟩ := (takes_field _ _).bind_ok h
  split at h
  · cases h
    exact ⟨rfl, by simp⟩
  · obtain ⟨size, _, rfl, hsize, h⟩ := (takes_field _ _).bind_ok h
    obtain ⟨hlength, h⟩ := check_ok h
    obtain ⟨bytes, _, rfl, hbytes, h⟩ := (takes_field _ _).bind_ok h
    cases h
    constructor
    · rw [eq_leBytes hsize hbytes]
      simp only [secretKeyBytes, List.cons_append, List.nil_append, List.append_assoc]
    · intro bs hbs
      cases hbs
      exact hbytes.trans (Decidable.not_not.1 hlength)
  · contradiction

/-- The fields of a record with some number as its total length. -/
def fields (s : Snapshot) (size : Nat) : Bytes :=
  magicBytes ++ (leBytes 2 s.version ++ (leBytes 4 size ++ (leBytes 4 s.configBlob.length ++
    (s.configBlob ++ (secretKeyBytes s.secretKey ++ (s.id.bytes ++ []))))))

theorem toBytes_eq_fields (s : Snapshot) : s.toBytes = s.fields s.toBytes.length := s.toBytes_eq

theorem length_fields (s : Snapshot) (m n : Nat) : (s.fields m).length = (s.fields n).length := by
  simp only [fields, List.length_append, length_leBytes]

/-- Bytes that hold the fields of a record and their own length are its written form. -/
theorem toBytes_of_fields {data : Bytes} {s : Snapshot} (h : data = s.fields data.length) :
    s.toBytes = data := by
  have hlength : s.toBytes.length = data.length :=
    calc s.toBytes.length
        = (s.fields s.toBytes.length).length := congrArg List.length s.toBytes_eq_fields
      _ = (s.fields data.length).length := s.length_fields _ _
      _ = data.length := (congrArg List.length h).symm
  rw [s.toBytes_eq_fields, hlength]
  exact h.symm

/-- What is read are the fields of a record, with the size that was expected as its total length. -/
theorem read_ok {size : Nat} {data : Bytes} {s : Snapshot} (h : read size data = .ok (s, rest)) :
    s.version = currentVersion ∧ (∀ bs ∈ s.secretKey, bs.length = secretKeyLength) ∧
      size < 2 ^ 32 ∧ data = s.fields size := by
  unfold read at h
  obtain ⟨magic, _, rfl, -, h⟩ := (takes_field _ _).bind_ok h
  obtain ⟨hmagic, h⟩ := check_ok h
  obtain ⟨version, _, rfl, hversion, h⟩ := (takes_field _ _).bind_ok h
  obtain ⟨hcurrent, h⟩ := check_ok h
  obtain ⟨total, _, rfl, htotal, h⟩ := (takes_field _ _).bind_ok h
  obtain ⟨hsize, h⟩ := check_ok h
  obtain ⟨length, _, rfl, hlength, h⟩ := (takes_field _ _).bind_ok h
  obtain ⟨blob, _, rfl, hblob, h⟩ := (takes_field _ _).bind_ok h
  obtain ⟨key, _, rfl, hkey, h⟩ := takes_secretKey.bind_ok h
  obtain ⟨id, left, rfl, -, h⟩ := (takes_block _ _).bind_ok h
  obtain ⟨hend, h⟩ := check_ok (f := fun _ => pure _) h
  cases h
  rw [Decidable.not_not] at hmagic hcurrent hsize hend
  subst hmagic hsize hend
  refine ⟨hcurrent, hkey, ?_, ?_⟩
  · have hlt := ofLE_lt total
    rwa [htotal] at hlt
  · have hversion' : leBytes 2 (ofLE version) = version := hversion ▸ leBytes_ofLE version
    have htotal' : leBytes 4 (ofLE total) = total := htotal ▸ leBytes_ofLE total
    rw [fields, hversion', htotal', ← eq_leBytes hlength hblob]

/-- A byte string is accepted as a record exactly if the format can carry the record and the byte
string is its written form. -/
theorem ofBytes_eq_ok_iff {data : Bytes} {s : Snapshot} :
    ofBytes data = .ok s ↔ s.version = 1 ∧ (∀ key, s.secretKey = some key → key.length = 32) ∧
      s.toBytes.length < 2 ^ 32 ∧ s.toBytes = data := by
  constructor
  · intro h
    unfold ofBytes at h
    split at h
    · contradiction
    · cases hread : read data.length data with
      | error fault =>
        rw [hread] at h
        contradiction
      | ok p =>
        rw [hread] at h
        cases h
        obtain ⟨hversion, hkey, hlength, hdata⟩ := read_ok hread
        have hbytes := toBytes_of_fields hdata
        exact ⟨hversion, hkey, hbytes ▸ hlength, hbytes⟩
  · rintro ⟨hversion, hkey, hlength, rfl⟩
    exact ofBytes_toBytes ⟨hversion, hkey, hlength⟩

end AuthDict.Snapshot
