import AuthDict.Binary
import AuthDict.Json.Form
import AuthDict.Trie.Basic

/-!
# Stored values

The element kept for a key, the identifier of a dictionary, and the written forms of these, of
updates and of tries. The written form of a trie lists its leaves; the digests are computed again
when it is read, and the root that was written is passed over.
-/
namespace AuthDict

/-- What all state of one dictionary is filed under. -/
abbrev DictionaryId := Block 16

instance : Std.TransOrd DictionaryId := inferInstance

instance : Std.LawfulEqOrd DictionaryId := inferInstance

/-- The payload of a key with the randomness that opens its commitment. -/
structure StoredElement where
  payload : Bytes
  randomness : Randomness
deriving DecidableEq, Repr

instance : BinaryForm StoredElement where
  encode e := Binary.encode e.payload ++ Binary.encode e.randomness
  reader := do return ⟨← BinaryForm.reader, ← BinaryForm.reader⟩

instance : JsonForm StoredElement where
  toJson e := .object
    [Json.field "payload" (toJson e.payload), Json.field "randomness" (toJson e.randomness)]
  ofJson? j := do
    match ← j.record? false ["payload", "randomness"] with
    | [payload, randomness] => return ⟨← Json.required payload, ← Json.required randomness⟩
    | _ => none

instance : BinaryForm Update where
  encode u := Binary.encode u.label ++ Binary.encode u.commitment
  reader := do return ⟨← BinaryForm.reader, ← BinaryForm.reader⟩

instance : JsonForm Update where
  toJson u := .object
    [Json.field "label" (toJson u.label), Json.field "commitment" (toJson u.commitment)]
  ofJson? j := do
    match ← j.record? false ["label", "commitment"] with
    | [label, commitment] => return ⟨← Json.required label, ← Json.required commitment⟩
    | _ => none

instance : BinaryForm Trie where
  encode t :=
    Binary.encode t.epoch ++ Binary.encode t.root ++ Binary.encodeList t.leaves.entries
  reader := do
    let epoch : Epoch ← BinaryForm.reader
    let _ : Digest ← BinaryForm.reader
    let leaves : List (Label × Commitment) ← .list BinaryForm.reader
    return .ofLeaves epoch leaves

/-- A JSON object cannot have labels for names, so only a trie without leaves has this form. -/
instance : JsonForm Trie where
  toJson t := .object
    [Json.field "epoch" (toJson t.epoch), Json.field "root" (toJson t.root),
     Json.field "leaves" (.object [])]
  ofJson? j := do
    match ← j.record? false ["epoch", "root", "leaves"] with
    | [epoch, root, some (.object [])] =>
      let _ : Digest ← Json.required root
      return .ofLeaves (← Json.required epoch) []
    | _ => none

end AuthDict
