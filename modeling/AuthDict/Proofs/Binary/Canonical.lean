import AuthDict.Element
import AuthDict.Proofs.Binary.RoundTrip

/-!
# One form for each value

What is kept and sent is read back as it was, and where its bytes end is told by the bytes
themselves. Readers are more generous than writers: they pass over bytes that come after a value,
read a seed in either case with or without `0x`, and carry nanoseconds over into seconds. So a value
can be read from many byte strings; of these, the one that is written again stands for all.
-/
namespace AuthDict

namespace Binary

/-- How the values of a type that fit are written and read. -/
structure SelfDelimiting (α : Type) [BinaryForm α] (fits : α → Prop) : Prop where
  /-- The reader takes a value's form off any bytes that start with it, and no more. -/
  stops : ∀ a, fits a → ∀ tail, BinaryForm.reader (encode a ++ tail) = .ok (a, tail)
  lossless : ∀ a, fits a → ∀ tail, decode (encode a ++ tail) = .ok a
  /-- What is read from accepted bytes can be written and read again. -/
  stable : ∀ (bs : Bytes) (a : α), decode bs = .ok a → ∀ tail, decode (encode a ++ tail) = .ok a
  /-- Accepted bytes are written again in the same form if and only if they are read as the same
  value. -/
  canonical : ∀ (bs cs : Bytes) (a b : α), decode bs = .ok a → decode cs = .ok b →
    (encode a = encode b ↔ decode (α := α) bs = decode cs)

variable {α : Type} [BinaryForm α]

theorem SelfDelimiting.of_reads {fits : α → Prop}
    (hreads : ∀ a, fits a → (BinaryForm.reader : Reader α).Reads (encode a) a)
    (hfits : ∀ (bs : Bytes) (a : α), decode bs = .ok a → fits a) : SelfDelimiting α fits := by
  have hlossless (a : α) (ha : fits a) (tail : Bytes) : decode (encode a ++ tail) = .ok a := by
    rw [decode, hreads a ha tail]
    rfl
  have hstable (bs : Bytes) (a : α) (h : decode bs = .ok a) (tail : Bytes) :
      decode (encode a ++ tail) = .ok a := hlossless a (hfits bs a h) tail
  refine ⟨hreads, hlossless, hstable, ?_⟩
  intro bs cs a b ha hb
  rw [ha, hb, Except.ok.injEq]
  constructor
  · intro hencode
    have hread := hstable bs a ha []
    rw [hencode, hstable cs b hb []] at hread
    exact (Except.ok.inj hread).symm
  · rintro rfl
    rfl

theorem selfDelimiting_of_lawful [LawfulBinaryForm α] : SelfDelimiting α fun _ => True :=
  .of_reads (fun a _ => LawfulBinaryForm.reads a) fun _ _ _ => trivial

namespace Reader

variable {bs rest xs : Bytes} {n k : Nat}

theorem length_of_take (h : take n bs = .ok (xs, rest)) : xs.length = n := by
  unfold take at h
  split at h
  · next hlength =>
    cases h
    exact hlength
  · contradiction

theorem lt_of_nat (h : nat n bs = .ok (k, rest)) : k < 256 ^ n := by
  obtain ⟨digits, _, htake, hk⟩ := bind_eq_ok.1 h
  cases hk
  rw [← length_of_take htake]
  exact ofLE_lt digits

/-- A byte string is as long as its length says, and that is a number of eight bytes. -/
theorem length_lt_of_bytes (h : bytes bs = .ok (xs, rest)) : xs.length < 256 ^ 8 := by
  obtain ⟨length, _, hlength, htake⟩ := bind_eq_ok.1 h
  rw [length_of_take htake]
  exact lt_of_nat hlength

theorem reads_bytes {xs : Bytes} (h : xs.length < 256 ^ 8) : bytes.Reads (encode xs) xs :=
  (reads_nat h).bind (reads_take xs)

end Reader

end Binary

open Binary

instance : LawfulBinaryForm Update where
  reads u := (LawfulBinaryForm.reads u.label).bind (LawfulBinaryForm.reads u.commitment).map

instance : LawfulBinaryForm UpdaterConfig where
  reads c := by
    have hencode : encode c =
        encode c.commitInterval ++ (encode c.onApplyFailure ++ encode c.flushOnShutdown) :=
      List.append_assoc ..
    rw [hencode]
    apply (LawfulBinaryForm.reads c.commitInterval).bind
    apply (LawfulBinaryForm.reads c.onApplyFailure).bind
    exact (LawfulBinaryForm.reads c.flushOnShutdown).map

namespace StoredElement

theorem reads {e : StoredElement} (h : e.payload.length < 256 ^ 8) :
    (BinaryForm.reader : Reader StoredElement).Reads (encode e) e :=
  (Reader.reads_bytes h).bind (LawfulBinaryForm.reads e.randomness).map

theorem length_payload_lt {bs : Bytes} {e : StoredElement} (h : decode bs = .ok e) :
    e.payload.length < 256 ^ 8 := by
  unfold decode at h
  cases hread : (BinaryForm.reader : Reader StoredElement) bs with
  | error fault =>
    rw [hread] at h
    contradiction
  | ok read =>
    obtain ⟨element, left⟩ := read
    rw [hread] at h
    obtain ⟨payload, _, hpayload, hrest⟩ := Reader.bind_eq_ok.1 hread
    obtain ⟨randomness, _, -, hpure⟩ := Reader.bind_eq_ok.1 hrest
    cases hpure
    cases h
    exact Reader.length_lt_of_bytes hpayload

/-- A payload of any length that can be told in eight bytes is read back. -/
theorem selfDelimiting : SelfDelimiting StoredElement fun e => e.payload.length < 2 ^ 64 := by
  have hbytes : 256 ^ 8 = 2 ^ 64 := by decide
  rw [← hbytes]
  exact .of_reads (fun _ h => reads h) fun _ _ h => length_payload_lt h

end StoredElement

namespace Binary

/-- Elements, updates, identifiers and both kinds of configuration are read back whatever comes
after them, the reader stops where a value ends, and what is read from any accepted bytes has one
form in which it is written again and from which it is read again. -/
theorem values_selfDelimiting :
    (SelfDelimiting StoredElement fun e => e.payload.length < 2 ^ 64) ∧
      (SelfDelimiting Update fun _ => True) ∧ (SelfDelimiting DictionaryId fun _ => True) ∧
      (SelfDelimiting UpdaterConfig fun _ => True) ∧ SelfDelimiting Config fun _ => True :=
  ⟨StoredElement.selfDelimiting, selfDelimiting_of_lawful, selfDelimiting_of_lawful,
    selfDelimiting_of_lawful, selfDelimiting_of_lawful⟩

/-- A configuration with the seed in capitals after `0x`, more than a second of nanoseconds, and one
byte too many. -/
def sampleGenerous : Bytes :=
  leBytes 4 1 ++ leBytes 4 0 ++ leBytes 4 1 ++ (1 :: leBytes 8 66) ++ [0x30, 0x78] ++
    List.replicate 64 0x42 ++ leBytes 8 5 ++ leBytes 8 2 ++ leBytes 8 3 ++
    (1 :: leBytes 8 1 ++ leBytes 4 2600000000) ++ leBytes 4 1 ++ [7]

def sampleSettings : Config :=
  { commitmentScheme := .sha3, queryMode := .direct,
    labelSeed := some ⟨List.replicate 32 0xbb, by decide⟩, labelCacheSize := 5, threadCount := 2,
    querierPoolSize := 3, commitInterval := some ⟨3, 600000000, by decide⟩,
    onApplyFailure := .discard }

theorem values_selfDelimiting_sampleGenerous :
    decode sampleGenerous = .ok sampleSettings ∧ encode sampleSettings ≠ sampleGenerous ∧
      decode (encode sampleSettings ++ [7, 7]) = .ok sampleSettings ∧
      decode (encode (⟨[1, 2], Block.zero 32⟩ : StoredElement) ++ [3]) =
        .ok (⟨[1, 2], Block.zero 32⟩ : StoredElement) := by
  obtain ⟨helement, -, -, -, hconfig⟩ := values_selfDelimiting
  have hread : decode sampleGenerous = .ok sampleSettings := by rfl
  have hother : encode sampleSettings ≠ sampleGenerous := by decide +kernel
  exact ⟨hread, hother, hconfig.stable _ _ hread [7, 7],
    helement.lossless ⟨[1, 2], Block.zero 32⟩ (by decide) [3]⟩

end Binary

end AuthDict
