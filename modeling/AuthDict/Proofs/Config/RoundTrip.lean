import AuthDict.Config.File
import AuthDict.Proofs.Binary.RoundTrip
import AuthDict.Proofs.Json.RoundTrip
import AuthDict.Proofs.Text.Utf8

/-!
# Configuration files read back

A configuration is read back from the file it is written to. Each of its fields has a document that
is read as its value (`LawfulJsonForm`); the record is read field by field, since its names are
distinct; its document is parsed from the printed text, and the text is decoded from its bytes.
-/
namespace AuthDict

namespace Json

variable {fields : List (String × Json)} {f : String × Json}

/-- The value of a name that occurs once. -/
theorem valuesOf_of_nodup (hnodup : (fields.map (·.1)).Nodup) (hf : f ∈ fields) :
    valuesOf f.1 (fields.map fun f => field f.1 f.2) = [f.2] := by
  induction fields with
  | nil => simp at hf
  | cons g rest ih =>
    rw [List.map_cons, List.nodup_cons] at hnodup
    obtain ⟨hg, hrest⟩ := hnodup
    cases List.mem_cons.1 hf with
    | inl heq =>
      subst heq
      have hnone : valuesOf f.1 (rest.map fun f => field f.1 f.2) = [] := by
        simp only [valuesOf, List.map_eq_nil_iff, List.filter_eq_nil_iff]
        intro h hh hname
        obtain ⟨e, he, rfl⟩ := List.mem_map.1 hh
        have hsame : e.1 = f.1 := by simpa [field] using hname
        exact hg (hsame ▸ List.mem_map_of_mem he)
      have hhead : valuesOf f.1 ((f :: rest).map fun f => field f.1 f.2) =
          f.2 :: valuesOf f.1 (rest.map fun f => field f.1 f.2) := by
        simp [valuesOf, field]
      rw [hhead, hnone]
    | inr hmem =>
      have hne : g.1 ≠ f.1 := by
        intro hsame
        exact hg (hsame ▸ List.mem_map_of_mem hmem)
      have hskip : valuesOf f.1 ((g :: rest).map fun f => field f.1 f.2) =
          valuesOf f.1 (rest.map fun f => field f.1 f.2) := by
        simp [valuesOf, field, hne]
      rw [hskip, ih hrest hmem]

/-- A record whose names are distinct is read field by field. -/
theorem record?_object (closed : Bool) (hnodup : (fields.map (·.1)).Nodup) :
    record? closed (fields.map (·.1)) (object (fields.map fun f => field f.1 f.2)) =
      some (fields.map fun f => some f.2) := by
  have hnames : (fields.map fun f => field f.1 f.2).all (fun g => g.1.isSome &&
      (!closed || (fields.map (·.1)).any fun n => g.1 == some n)) = true := by
    simp only [List.all_eq_true, List.mem_map]
    rintro g ⟨f, hf, rfl⟩
    have hany : (fields.map (·.1)).any (fun n => (field f.1 f.2).1 == some n) = true :=
      List.any_eq_true.2 ⟨f.1, List.mem_map_of_mem hf, by simp [field]⟩
    rw [hany, Bool.or_true]
    rfl
  have hvalues (gs : List (String × Json)) (hgs : gs ⊆ fields) :
      (gs.map (·.1)).mapM (valueOf? (fields.map fun f => field f.1 f.2)) =
        some (gs.map fun f => some f.2) := by
    induction gs with
    | nil => rfl
    | cons g gs ih =>
      obtain ⟨hg, hrest⟩ := List.cons_subset.1 hgs
      have hvalue : valueOf? (fields.map fun f => field f.1 f.2) g.1 = some (some g.2) := by
        rw [valueOf?, valuesOf_of_nodup hnodup hg]
      simp [List.map_cons, List.mapM_cons, hvalue, ih hrest]
  rw [record?, if_pos hnames, hvalues fields (List.Subset.refl _)]

end Json

/-- Every value is read back from its document, which is read back from its text. -/
class LawfulJsonForm (α : Type) [JsonForm α] : Prop where
  ofJson?_toJson : ∀ a : α, (toJson a).ofJson? = some a
  readable : ∀ a : α, (toJson a).Readable

namespace LawfulJsonForm

open Json (ofJson?)

theorem ofJson?_choice {α : Type} {c : Choice α} (hall : ∀ a, a = c.first ∨ a = c.second)
    (hname : c.name c.second ≠ c.name c.first) (a : α) : c.ofJson? (c.toJson a) = some a := by
  have hconstant : (c.toJson a).constant? = some (c.name a) := rfl
  rw [Choice.ofJson?, hconstant, Option.bind_some, Choice.ofName?]
  rcases hall a with rfl | rfl
  · rw [if_pos rfl]
  · rw [if_neg hname, if_pos rfl]

instance : LawfulJsonForm CommitmentScheme where
  ofJson?_toJson := ofJson?_choice (fun a => by cases a <;> decide) (by decide)
  readable _ := trivial

instance : LawfulJsonForm LabelScheme where
  ofJson?_toJson := ofJson?_choice (fun a => by cases a <;> decide) (by decide)
  readable _ := trivial

instance : LawfulJsonForm QueryMode where
  ofJson?_toJson := ofJson?_choice (fun a => by cases a <;> decide) (by decide)
  readable _ := trivial

instance : LawfulJsonForm FailurePolicy where
  ofJson?_toJson := ofJson?_choice (fun a => by cases a <;> decide) (by decide)
  readable _ := trivial

/-- Every number of 64 bits is short enough to be read for its value. -/
theorem toNat_lt_maxDigits (n : UInt64) : n.toNat < 10 ^ Json.maxDigits :=
  Nat.lt_of_lt_of_le n.toNat_lt (by decide)

theorem below?_nat {bound n : Nat} (h : n < bound) : (Json.nat n).below? bound = some n := by
  rw [Json.below?, if_pos h]

instance : LawfulJsonForm UInt64 where
  ofJson?_toJson n := by
    have hbelow := below?_nat n.toNat_lt_size
    change ((Json.nat n.toNat).below? UInt64.size).map UInt64.ofNat = some n
    rw [hbelow, Option.map_some, UInt64.ofNat_toNat]
  readable n := toNat_lt_maxDigits n

instance : LawfulJsonForm Duration where
  ofJson?_toJson d := by
    have hnames : ([("secs", toJson d.secs), ("nanos", .nat d.nanos)].map
        (fun f : String × Json => f.1)).Nodup := by
      simp
    have hrecord : (Json.object [Json.field "secs" (toJson d.secs),
        Json.field "nanos" (.nat d.nanos)]).record? true ["secs", "nanos"] =
        some [some (toJson d.secs), some (.nat d.nanos)] := Json.record?_object true hnames
    have hsecs : (toJson d.secs).below? UInt64.size = some d.secs.toNat :=
      below?_nat d.secs.toNat_lt_size
    have hnanos : (Json.nat d.nanos).below? UInt32.size = some d.nanos :=
      below?_nat (Nat.lt_trans d.nanos_lt (by decide))
    rw [Json.ofJson?, JsonForm.ofJson?, instJsonFormDuration]
    simp only [hrecord, hsecs, hnanos, Option.bind_eq_bind, Option.bind_some]
    exact LawfulBinaryForm.ofParts?_parts d
  readable d := ⟨toNat_lt_maxDigits d.secs, Nat.lt_trans d.nanos_lt (by decide), trivial⟩

theorem ofJson?_present {α : Type} [JsonForm α] {j : Json} (h : j ≠ .null) :
    (j.ofJson? : Option (Option α)) = (j.ofJson? : Option α).map some := by
  cases j with
  | null => contradiction
  | _ => rfl

/-- A value that may be absent, if no present one is written as an absent one is. -/
theorem option {α : Type} [JsonForm α] [LawfulJsonForm α] (hnull : ∀ a : α, toJson a ≠ .null) :
    LawfulJsonForm (Option α) where
  ofJson?_toJson a := by
    cases a with
    | none => rfl
    | some a =>
      calc (toJson (some a)).ofJson?
        _ = ((toJson a).ofJson? : Option α).map some := ofJson?_present (hnull a)
        _ = some (some a) := by rw [ofJson?_toJson, Option.map_some]
  readable a := by
    cases a with
    | none => trivial
    | some a => exact readable a

instance : LawfulJsonForm (Option Duration) := option fun _ h => by contradiction

theorem ofJson?_seed (seed : Option Seed) : SeedText.ofJson? (SeedText.toJson seed) = some seed := by
  cases seed with
  | none => rfl
  | some seed =>
    rw [SeedText.toJson, Json.string, SeedText.ofJson?, String.toList_ofList, SeedText.read_write]
    rfl

theorem readable_seed (seed : Option Seed) : (SeedText.toJson seed).Readable := by
  cases seed with
  | none => trivial
  | some seed => trivial

end LawfulJsonForm

namespace Config

open LawfulJsonForm Json

/-- The fields of a configuration's document. -/
def fields (c : Config) : List (String × Json) :=
  [("commitment_scheme", JsonForm.toJson c.commitmentScheme),
   ("label_scheme", JsonForm.toJson c.labelScheme),
   ("trie_storage_mode", JsonForm.toJson c.queryMode),
   ("label_seed", SeedText.toJson c.labelSeed),
   ("label_cache_size", JsonForm.toJson c.labelCacheSize),
   ("thread_count", JsonForm.toJson c.threadCount),
   ("querier_pool_size", JsonForm.toJson c.querierPoolSize),
   ("commit_interval", JsonForm.toJson c.commitInterval),
   ("on_apply_failure", JsonForm.toJson c.onApplyFailure)]

theorem record?_toJson (c : Config) :
    c.toJson.record? false fieldNames = some (c.fields.map fun f => some f.2) := by
  have hnames : (c.fields.map (·.1)).Nodup := by
    change fieldNames.Nodup
    decide
  exact record?_object false hnames

instance : LawfulJsonForm Config where
  ofJson?_toJson c := by
    change Config.ofJson? c.toJson = some c
    rw [Config.ofJson?, record?_toJson]
    simp only [fields, List.map_cons, List.map_nil, Option.bind_eq_bind, Option.bind_some, fieldOr,
      ofJson?_toJson, ofJson?_seed, Option.pure_def]
  readable c := ⟨readable c.commitmentScheme, readable c.labelScheme, readable c.queryMode,
    readable_seed c.labelSeed, readable c.labelCacheSize, readable c.threadCount,
    readable c.querierPoolSize, readable c.commitInterval, readable c.onApplyFailure, trivial⟩

/-- Whatever is configured, it is read back from the file it is written to. -/
theorem ofFile_toFile (c : Config) : Config.ofFile c.toFile = .ok c := by
  have hparse : parseChars? c.fileText.toList = some c.toJson := by
    rw [fileText, pretty, String.toList_ofList]
    exact parseChars?_prettyChars (readable c) 0
  have hread : Config.ofJson? c.toJson = some c := ofJson?_toJson c
  rw [ofFile, toFile, Utf8.decode_encode]
  simp only [ofFileText?, hparse, Option.bind_some, hread]

end Config

end AuthDict
