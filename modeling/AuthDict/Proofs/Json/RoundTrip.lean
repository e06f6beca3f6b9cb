import AuthDict.Json.Parse
import AuthDict.Proofs.Json.Scanning

/-!
# Documents read back

A document that is printed and parsed again is the same document, if its numbers are natural and
have no more digits than the parser reads. Printing cuts into the document's tokens
(`yields_prettyChars`), and the tokens of a document take the parser to where the document is done,
whatever stands around it (`ParseState.run_tokens`).
-/
namespace AuthDict.Json

mutual

/-- Every number in the document is natural and within the digits that the parser reads. -/
def Readable : Json → Prop
  | nat n => n < 10 ^ maxDigits
  | number _ => False
  | array items => ReadableItems items
  | object fields => ReadableFields fields
  | _ => True

def ReadableItems : List Json → Prop
  | [] => True
  | item :: rest => item.Readable ∧ ReadableItems rest

def ReadableFields : List (JsonText × Json) → Prop
  | [] => True
  | (_, value) :: rest => value.Readable ∧ ReadableFields rest

end

mutual

/-- The tokens of a document. -/
def tokens : Json → List Token
  | array [] => [.openArray, .closeArray]
  | array (item :: rest) => .openArray :: (item.tokens ++ itemTokens rest ++ [.closeArray])
  | object [] => [.openObject, .closeObject]
  | object ((name, value) :: rest) =>
    .openObject :: .atom (.text name) :: .colon ::
      (value.tokens ++ fieldTokens rest ++ [.closeObject])
  | j => [.atom j]

def itemTokens : List Json → List Token
  | [] => []
  | item :: rest => .comma :: (item.tokens ++ itemTokens rest)

def fieldTokens : List (JsonText × Json) → List Token
  | [] => []
  | (name, value) :: rest =>
    .comma :: .atom (.text name) :: .colon :: (value.tokens ++ fieldTokens rest)

end

namespace ParseState

/-- No document starts with the end of an array. -/
theorem run_firstItem (j : Json) (stack : List Frame) (ts : List Token) :
    (firstItem stack).run (j.tokens ++ ts) = (value (.array [] :: stack)).run (j.tokens ++ ts) := by
  match j with
  | null | bool _ | nat _ | number _ | text _ => rfl
  | array [] | array (_ :: _) => rfl
  | object [] | object (_ :: _) => rfl

mutual

/-- The tokens of a document take the parser to where the document is done. -/
theorem run_tokens (j : Json) (stack : List Frame) (ts : List Token) :
    (value stack).run (j.tokens ++ ts) = (done j stack).run ts := by
  match j with
  | null | bool _ | nat _ | number _ | text _ => rfl
  | array [] => rfl
  | array (item :: rest) =>
    calc (value stack).run ((array (item :: rest)).tokens ++ ts)
      _ = (firstItem stack).run (item.tokens ++ (itemTokens rest ++ .closeArray :: ts)) := by
        simp only [tokens, List.cons_append, List.append_assoc, List.nil_append]
        rfl
      _ = (done item (.array [] :: stack)).run (itemTokens rest ++ .closeArray :: ts) := by
        rw [run_firstItem, run_tokens item]
      _ = (done (array (item :: rest)) stack).run ts := run_itemTokens rest [] item stack ts
  | object [] => rfl
  | object ((name, item) :: rest) =>
    calc (value stack).run ((object ((name, item) :: rest)).tokens ++ ts)
      _ = (value (.object [] name :: stack)).run
          (item.tokens ++ (fieldTokens rest ++ .closeObject :: ts)) := by
        simp only [tokens, List.cons_append, List.append_assoc, List.nil_append]
        rfl
      _ = (done item (.object [] name :: stack)).run (fieldTokens rest ++ .closeObject :: ts) := by
        rw [run_tokens item]
      _ = (done (object ((name, item) :: rest)) stack).run ts :=
        run_fieldTokens rest [] name item stack ts

/-- After an item, the rest of an array. -/
theorem run_itemTokens (items before : List Json) (j : Json) (stack : List Frame)
    (ts : List Token) :
    (done j (.array before :: stack)).run (itemTokens items ++ .closeArray :: ts) =
      (done (.array (before.reverse ++ j :: items)) stack).run ts := by
  match items with
  | [] =>
    rw [← List.reverse_cons]
    rfl
  | item :: rest =>
    calc (done j (.array before :: stack)).run (itemTokens (item :: rest) ++ .closeArray :: ts)
      _ = (value (.array (j :: before) :: stack)).run
          (item.tokens ++ (itemTokens rest ++ .closeArray :: ts)) := by
        simp only [itemTokens, List.cons_append, List.append_assoc]
        rfl
      _ = (done item (.array (j :: before) :: stack)).run
          (itemTokens rest ++ .closeArray :: ts) := by
        rw [run_tokens item]
      _ = (done (.array (before.reverse ++ j :: item :: rest)) stack).run ts := by
        rw [run_itemTokens rest, List.reverse_cons, List.append_assoc, List.singleton_append]

/-- After the value of a field, the rest of an object. -/
theorem run_fieldTokens (fields before : List (JsonText × Json)) (name : JsonText) (j : Json)
    (stack : List Frame) (ts : List Token) :
    (done j (.object before name :: stack)).run (fieldTokens fields ++ .closeObject :: ts) =
      (done (.object (before.reverse ++ (name, j) :: fields)) stack).run ts := by
  match fields with
  | [] =>
    rw [← List.reverse_cons]
    rfl
  | (next, item) :: rest =>
    calc (done j (.object before name :: stack)).run (fieldTokens ((next, item) :: rest) ++ _)
      _ = (value (.object ((name, j) :: before) next :: stack)).run
          (item.tokens ++ (fieldTokens rest ++ .closeObject :: ts)) := by
        simp only [fieldTokens, List.cons_append, List.append_assoc]
        rfl
      _ = (done item (.object ((name, j) :: before) next :: stack)).run
          (fieldTokens rest ++ .closeObject :: ts) := by
        rw [run_tokens item]
      _ = (done (.object (before.reverse ++ (name, j) :: (next, item) :: rest)) stack).run ts := by
        rw [run_fieldTokens rest, List.reverse_cons, List.append_assoc, List.singleton_append]

end

end ParseState

theorem delimited_newline (level : Nat) (cs : List Char) : Delimited (newline level ++ cs) := by
  simp [Delimited, newline]

/-- After an item come a comma and the next, or what comes after the last. -/
theorem delimited_prettyItems (level : Nat) (items : List Json) {cs : List Char}
    (hcs : Delimited cs) : Delimited (prettyItems level items ++ cs) := by
  cases items with
  | nil => exact hcs
  | cons item rest => simp [prettyItems, Delimited]

theorem delimited_prettyFields (level : Nat) (fields : List (JsonText × Json)) {cs : List Char}
    (hcs : Delimited cs) : Delimited (prettyFields level fields ++ cs) := by
  cases fields with
  | nil => exact hcs
  | cons field rest => simp [prettyFields, Delimited]

mutual

/-- The printed document is cut into its tokens. -/
theorem yields_prettyChars (j : Json) (hj : j.Readable) (level : Nat) {cs : List Char}
    {ts : List Token} (hcs : Delimited cs) (h : Yields cs ts) :
    Yields (prettyChars level j ++ cs) (j.tokens ++ ts) := by
  match j, hj with
  | null, _ => exact h.null
  | bool b, _ => exact .bool b h
  | nat n, hn => exact .nat hn hcs h
  | text s, _ => exact .quote s h
  | array [], _ => exact .openArray (.closeArray h)
  | array (item :: rest), hall =>
    obtain ⟨hitem, hrest⟩ := hall
    have hclose : Yields (newline level ++ ']' :: cs) (.closeArray :: ts) :=
      .newline level (.closeArray h)
    have htail := yields_prettyItems rest hrest (level + 1) (delimited_newline level _) hclose
    have hhead := yields_prettyChars item hitem (level + 1)
      (delimited_prettyItems (level + 1) rest (delimited_newline level _)) htail
    have hopen := Yields.openArray (.newline (level + 1) hhead)
    simpa only [prettyChars, tokens, List.cons_append, List.append_assoc, List.nil_append] using hopen
  | object [], _ => exact .openObject (.closeObject h)
  | object ((name, value) :: rest), hall =>
    obtain ⟨hvalue, hrest⟩ := hall
    have hclose : Yields (newline level ++ '\x7d' :: cs) (.closeObject :: ts) :=
      .newline level (.closeObject h)
    have htail := yields_prettyFields rest hrest (level + 1) (delimited_newline level _) hclose
    have hhead := yields_prettyChars value hvalue (level + 1)
      (delimited_prettyFields (level + 1) rest (delimited_newline level _)) htail
    have hopen := Yields.openObject (.newline (level + 1)
      (.quote name (.colon (.blank (c := ' ') rfl hhead))))
    simpa only [prettyChars, tokens, List.cons_append, List.append_assoc, List.nil_append] using hopen

theorem yields_prettyItems (items : List Json) (hitems : ReadableItems items) (level : Nat)
    {cs : List Char} {ts : List Token} (hcs : Delimited cs) (h : Yields cs ts) :
    Yields (prettyItems level items ++ cs) (itemTokens items ++ ts) := by
  match items, hitems with
  | [], _ => exact h
  | item :: rest, hall =>
    obtain ⟨hitem, hrest⟩ := hall
    have htail := yields_prettyItems rest hrest level hcs h
    have hhead := yields_prettyChars item hitem level (delimited_prettyItems level rest hcs) htail
    have hcomma := Yields.comma (.newline level hhead)
    simpa only [prettyItems, itemTokens, List.cons_append, List.append_assoc] using hcomma

theorem yields_prettyFields (fields : List (JsonText × Json)) (hfields : ReadableFields fields)
    (level : Nat) {cs : List Char} {ts : List Token} (hcs : Delimited cs) (h : Yields cs ts) :
    Yields (prettyFields level fields ++ cs) (fieldTokens fields ++ ts) := by
  match fields, hfields with
  | [], _ => exact h
  | (name, value) :: rest, hall =>
    obtain ⟨hvalue, hrest⟩ := hall
    have htail := yields_prettyFields rest hrest level hcs h
    have hhead := yields_prettyChars value hvalue level (delimited_prettyFields level rest hcs) htail
    have hcomma := Yields.comma (.newline level
      (.quote name (.colon (.blank (c := ' ') rfl hhead))))
    simpa only [prettyFields, fieldTokens, List.cons_append, List.append_assoc, List.nil_append]
      using hcomma

end

/-- A document is parsed from its printed text. -/
theorem parseChars?_prettyChars {j : Json} (hj : j.Readable) (level : Nat) :
    parseChars? (prettyChars level j) = some j := by
  have hend : Delimited [] := by simp [Delimited]
  have hyields := yields_prettyChars j hj level hend .nil
  have hrun := ParseState.run_tokens j [] []
  rw [List.append_nil, List.append_nil] at hyields
  rw [List.append_nil] at hrun
  have hdone : (ParseState.done j []).run [] = some (.done j []) := rfl
  rw [parseChars?, hyields.tokens?]
  simp only [Option.bind_eq_bind, Option.bind_some, hrun, hdone]

end AuthDict.Json
