import AuthDict.Json.Token
import Mathlib.Algebra.Group.Nat.Defs

/-!
# Tokens of printed text

A printed text, number or literal is one token again, whatever text comes after it; only after a
number that text must not go on as the number would. `Yields` says that a text is cut into some
tokens with any fuel that is enough, so the tokens of a document are put together from the back.
-/
namespace AuthDict.Json

theorem scanText_push {c : Char} (hquote : c ≠ '"') (hslash : c ≠ '\\') (hc : ¬ c.toNat < 32)
    (q : Quoted) (cs : List Char) : scanText q (c :: cs) = scanText (q.push c) cs := by
  rw [scanText]
  · simp [hslash, hc]
  all_goals simp [hslash, hquote]

theorem scanText_unescape {e c : Char} (he : e ≠ 'u') (h : unescape? e = some c) (q : Quoted)
    (cs : List Char) : scanText q ('\\' :: e :: cs) = scanText (q.push c) cs := by
  rw [scanText]
  · simp [h]
  · simp [he]

theorem hexDigit?_digitChar (n : Nat) (h : n < 16) : hexDigit? n.digitChar = some n := by
  decide +revert

theorem scanText_control {c : Char} (h : c.toNat < 32) (q : Quoted) (cs : List Char) :
    scanText q ('\\' :: 'u' :: '0' :: '0' :: Nat.digitChar (c.toNat / 16) ::
      Nat.digitChar (c.toNat % 16) :: cs) = scanText (q.push c) cs := by
  have hunit : hexUnit? '0' '0' (Nat.digitChar (c.toNat / 16)) (Nat.digitChar (c.toNat % 16)) =
      some c.toNat := by
    have hzero : hexDigit? '0' = some 0 := rfl
    have hhi := hexDigit?_digitChar (c.toNat / 16) (by omega)
    have hlo := hexDigit?_digitChar (c.toNat % 16) (by omega)
    simp only [hexUnit?, hzero, hhi, hlo, Option.bind_eq_bind, Option.bind_some, Option.pure_def]
    congr 1
    omega
  rw [scanText, hunit]
  dsimp only
  rw [Quoted.pushUnit, if_neg (by omega), if_neg (by omega), Char.ofNat_toNat]

/-- A character is read as it was before it was escaped. -/
theorem scanText_escape (q : Quoted) (c : Char) (cs : List Char) :
    scanText q (escape c ++ cs) = scanText (q.push c) cs := by
  unfold escape
  split
  · next h =>
    subst h
    exact scanText_unescape (by decide) rfl q cs
  split
  · next h =>
    subst h
    exact scanText_unescape (by decide) rfl q cs
  split
  · next h =>
    subst h
    exact scanText_unescape (by decide) rfl q cs
  split
  · next h =>
    subst h
    exact scanText_unescape (by decide) rfl q cs
  split
  · next h =>
    subst h
    exact scanText_unescape (by decide) rfl q cs
  split
  · next h =>
    obtain rfl : c = '\x08' := Char.toNat_inj.1 h
    exact scanText_unescape (by decide) rfl q cs
  split
  · next h =>
    obtain rfl : c = '\x0c' := Char.toNat_inj.1 h
    exact scanText_unescape (by decide) rfl q cs
  split
  · next h => exact scanText_control h q cs
  · next hquote hslash _ _ _ _ _ h => exact scanText_push hquote hslash h q cs

theorem scanText_escaped (read s rest : List Char) :
    scanText ⟨some read, none⟩ (s.flatMap escape ++ '"' :: rest) =
      some (some (String.ofList (read.reverse ++ s)), rest) := by
  induction s generalizing read with
  | nil =>
    rw [List.flatMap_nil, List.nil_append, scanText, List.append_nil]
    rfl
  | cons c s ih =>
    have hpush : Quoted.push ⟨some read, none⟩ c = ⟨some (c :: read), none⟩ := rfl
    rw [List.flatMap_cons, List.append_assoc, scanText_escape, hpush, ih, List.reverse_cons,
      List.append_assoc, List.singleton_append]

/-- Every text is read back from between its quotes, also the one that is no Unicode text. -/
theorem scanText_quote (s : JsonText) (rest : List Char) :
    ∃ cs, quote s ++ rest = '"' :: cs ∧ rest.length ≤ cs.length ∧
      scanText .start cs = some (s, rest) := by
  cases s with
  | none =>
    refine ⟨'\\' :: 'u' :: 'd' :: '8' :: '0' :: '0' :: '"' :: rest, rfl, ?_, rfl⟩
    simp only [List.length_cons]
    omega
  | some s =>
    refine ⟨s.toList.flatMap escape ++ '"' :: rest, ?_, ?_, ?_⟩
    · simp [quote]
    · simp only [List.length_append, List.length_cons]
      omega
    · rw [Quoted.start, scanText_escaped, List.reverse_nil, List.nil_append, String.ofList_toList]

/-- What may come after a value: the end, a comma or a new line. -/
def Delimited (cs : List Char) : Prop := ∀ c ∈ cs.head?, c = ',' ∨ c = '\n'

theorem takeWhile_digits {ds cs : List Char} (hds : ∀ c ∈ ds, c.isDigit = true)
    (hcs : Delimited cs) : (ds ++ cs).takeWhile Char.isDigit = ds ∧
      (ds ++ cs).dropWhile Char.isDigit = cs := by
  rw [List.takeWhile_append_of_pos hds, List.dropWhile_append_of_pos hds]
  cases cs with
  | nil => simp
  | cons c cs =>
    rcases hcs c rfl with rfl | rfl
    · simp
    · simp

theorem scanDigits_append {ds cs : List Char} (hne : ds ≠ []) (hds : ∀ c ∈ ds, c.isDigit = true)
    (hcs : Delimited cs) : scanDigits (ds ++ cs) = some (ds, cs) := by
  obtain ⟨htake, hdrop⟩ := takeWhile_digits hds hcs
  rw [scanDigits, htake, hdrop]
  cases ds with
  | nil => contradiction
  | cons c ds => rfl

/-- Only zero is written with a leading zero. -/
theorem head_toDigits {n : Nat} (h : 0 < n) : ∃ c ds, Nat.toDigits 10 n = c :: ds ∧ c ≠ '0' := by
  induction n using Nat.strongRecOn with
  | ind n ih =>
    by_cases hn : n < 10
    · have hdigit : ∀ m < 10, 0 < m → m.digitChar ≠ '0' := by decide
      exact ⟨n.digitChar, [], Nat.toDigits_of_lt_base hn, hdigit n hn h⟩
    · obtain ⟨c, ds, hds, hc⟩ := ih (n / 10) (by omega) (by omega)
      refine ⟨c, ds ++ [Nat.digitChar (n % 10)], ?_, hc⟩
      rw [Nat.toDigits_of_base_le (by decide) (by omega), hds]
      rfl

theorem scanWhole_toDigits (n : Nat) {cs : List Char} (hcs : Delimited cs) :
    scanWhole (Nat.toDigits 10 n ++ cs) = some (Nat.toDigits 10 n, cs) := by
  cases Nat.eq_zero_or_pos n with
  | inl hn =>
    subst hn
    rfl
  | inr hn =>
    obtain ⟨c, ds, hds, hc⟩ := head_toDigits hn
    have hscan := scanDigits_append (Nat.toDigits_ne_nil (n := n) (b := 10))
      (fun _ => Nat.isDigit_of_mem_toDigits (by decide) (by decide)) hcs
    rw [hds] at hscan ⊢
    rw [← hscan, scanWhole]
    simp [hc]

theorem natOfDigits_toDigits (n : Nat) : natOfDigits (Nat.toDigits 10 n) = n :=
  Nat.ofDigitChars_toDigits (by decide) (by decide)

/-- A number that is short enough to be read for its value is read back. -/
theorem scanNumber_toDigits {n : Nat} (hn : n < 10 ^ maxDigits) {cs : List Char}
    (hcs : Delimited cs) : scanNumber (Nat.toDigits 10 n ++ cs) = some (.nat n, cs) := by
  have hlength := (Nat.length_toDigits_le_iff (b := 10) (by decide) (by decide)).2 hn
  have hwhole := scanWhole_toDigits n hcs
  have hrest : scanFraction cs = some ([], cs) ∧ scanExponent cs = some ([], cs) := by
    cases cs with
    | nil => exact ⟨rfl, rfl⟩
    | cons c cs =>
      rcases hcs c rfl with rfl | rfl
      · cases cs <;> exact ⟨rfl, rfl⟩
      · cases cs <;> exact ⟨rfl, rfl⟩
  obtain ⟨c, ds, hds⟩ := List.exists_cons_of_ne_nil (Nat.toDigits_ne_nil (n := n) (b := 10))
  have hminus : c ≠ '-' := by
    have hdigit : c.isDigit = true := Nat.isDigit_of_mem_toDigits (n := n) (b := 10) (by decide)
      (by decide) (by simp [hds])
    intro h
    subst h
    contradiction
  rw [hds] at hwhole hlength ⊢
  have hvalue := natOfDigits_toDigits n
  rw [hds] at hvalue
  rw [scanNumber]
  · rw [hwhole]
    simpa [hrest.1, hrest.2, hvalue] using hlength
  · intro rest h
    exact hminus (List.cons.inj h).1

/-- The tokens that a text is cut into, with any fuel that is enough. -/
def Yields (cs : List Char) (ts : List Token) : Prop :=
  ∀ read fuel, cs.length ≤ fuel → tokensFrom read fuel cs = some (read.reverse ++ ts)

theorem Yields.tokens? {cs : List Char} {ts : List Token} (h : Yields cs ts) :
    tokens? cs = some ts :=
  h [] cs.length (Nat.le_refl _)

theorem Yields.nil : Yields [] [] := by
  intro read fuel _
  rw [tokensFrom, List.append_nil]

section

variable {c : Char} {cs rest : List Char} {t : Token} {ts : List Token}

theorem Yields.token (hstep : ∀ read fuel,
      tokensFrom read (fuel + 1) (c :: cs) = tokensFrom (t :: read) fuel rest)
    (hlength : rest.length ≤ cs.length) (h : Yields rest ts) : Yields (c :: cs) (t :: ts) := by
  intro read fuel hfuel
  rw [List.length_cons] at hfuel
  obtain ⟨fuel, rfl⟩ := Nat.exists_eq_add_of_lt (Nat.lt_of_lt_of_le (Nat.succ_pos _) hfuel)
  rw [Nat.zero_add, hstep, h _ _ (by omega), List.reverse_cons, List.append_assoc,
    List.singleton_append]

theorem Yields.blank (hc : isBlank c = true) (h : Yields cs ts) : Yields (c :: cs) ts := by
  intro read fuel hfuel
  rw [List.length_cons] at hfuel
  obtain ⟨fuel, rfl⟩ := Nat.exists_eq_add_of_lt (Nat.lt_of_lt_of_le (Nat.succ_pos _) hfuel)
  rw [Nat.zero_add, tokensFrom, if_pos hc]
  exact h _ _ (by omega)

theorem Yields.newline (level : Nat) (h : Yields cs ts) : Yields (newline level ++ cs) ts := by
  have hblanks (n : Nat) : Yields (List.replicate n ' ' ++ cs) ts := by
    induction n with
    | zero => exact h
    | succ n ih => exact .blank rfl ih
  exact .blank rfl (hblanks (2 * level))

theorem Yields.openArray (h : Yields cs ts) : Yields ('[' :: cs) (.openArray :: ts) :=
  .token (fun _ _ => rfl) (Nat.le_refl _) h

theorem Yields.closeArray (h : Yields cs ts) : Yields (']' :: cs) (.closeArray :: ts) :=
  .token (fun _ _ => rfl) (Nat.le_refl _) h

theorem Yields.openObject (h : Yields cs ts) : Yields ('\x7b' :: cs) (.openObject :: ts) :=
  .token (fun _ _ => rfl) (Nat.le_refl _) h

theorem Yields.closeObject (h : Yields cs ts) : Yields ('\x7d' :: cs) (.closeObject :: ts) :=
  .token (fun _ _ => rfl) (Nat.le_refl _) h

theorem Yields.colon (h : Yields cs ts) : Yields (':' :: cs) (.colon :: ts) :=
  .token (fun _ _ => rfl) (Nat.le_refl _) h

theorem Yields.comma (h : Yields cs ts) : Yields (',' :: cs) (.comma :: ts) :=
  .token (fun _ _ => rfl) (Nat.le_refl _) h

theorem Yields.null (h : Yields cs ts) :
    Yields ('n' :: 'u' :: 'l' :: 'l' :: cs) (.atom .null :: ts) := by
  refine .token (fun _ _ => rfl) ?_ h
  simp only [List.length_cons]
  omega

theorem Yields.bool (b : Bool) (h : Yields cs ts) :
    Yields (atomChars (.bool b) ++ cs) (.atom (.bool b) :: ts) := by
  cases b with
  | true =>
    change Yields ('t' :: 'r' :: 'u' :: 'e' :: cs) _
    refine .token (fun _ _ => rfl) ?_ h
    simp only [List.length_cons]
    omega
  | false =>
    change Yields ('f' :: 'a' :: 'l' :: 's' :: 'e' :: cs) _
    refine .token (fun _ _ => rfl) ?_ h
    simp only [List.length_cons]
    omega

theorem Yields.quote (s : JsonText) (h : Yields cs ts) :
    Yields (quote s ++ cs) (.atom (.text s) :: ts) := by
  obtain ⟨inside, hquote, hlength, hscan⟩ := scanText_quote s cs
  rw [hquote]
  refine .token (fun read fuel => ?_) hlength h
  have hstep : tokensFrom read (fuel + 1) ('"' :: inside) =
      (scanText .start inside).bind fun x => tokensFrom (.atom (.text x.1) :: read) fuel x.2 := by
    cases hx : scanText .start inside <;> simp [tokensFrom, isBlank, hx]
  rw [hstep, hscan]
  rfl

theorem ne_of_isDigit {c d : Char} (hc : c.isDigit = true) (hd : d.isDigit = false) : c ≠ d := by
  intro h
  rw [h, hd] at hc
  contradiction

theorem tokensFrom_digit (hc : c.isDigit = true) (read : List Token) (fuel : Nat) :
    tokensFrom read (fuel + 1) (c :: cs) =
      match scanNumber (c :: cs) with
      | some (n, rest) => tokensFrom (.atom n :: read) fuel rest
      | none => none := by
  have hne {d : Char} (hd : d.isDigit = false) : c ≠ d := ne_of_isDigit hc hd
  have hblank : ¬ isBlank c = true := by
    simp [isBlank, hne (d := ' ') rfl, hne (d := '\n') rfl, hne (d := '\t') rfl,
      hne (d := '\r') rfl]
  rw [tokensFrom, if_neg hblank, if_neg (hne rfl), if_neg (hne rfl), if_neg (hne rfl),
    if_neg (hne rfl), if_neg (hne rfl), if_neg (hne rfl), if_neg (hne rfl)]
  split
  · next h => exact absurd (List.cons.inj h).1 (hne rfl)
  · next h => exact absurd (List.cons.inj h).1 (hne rfl)
  · next h => exact absurd (List.cons.inj h).1 (hne rfl)
  · rfl

theorem Yields.nat {n : Nat} (hn : n < 10 ^ maxDigits) (hcs : Delimited cs) (h : Yields cs ts) :
    Yields (Nat.toDigits 10 n ++ cs) (.atom (.nat n) :: ts) := by
  have hscan := scanNumber_toDigits hn hcs
  obtain ⟨c, ds, hds⟩ := List.exists_cons_of_ne_nil (Nat.toDigits_ne_nil (n := n) (b := 10))
  have hdigit : c.isDigit = true := Nat.isDigit_of_mem_toDigits (n := n) (b := 10) (by decide)
    (by decide) (by simp [hds])
  rw [hds, List.cons_append] at hscan ⊢
  apply Yields.token _ _ h
  · intro read fuel
    rw [tokensFrom_digit hdigit, hscan]
  · simp

end

end AuthDict.Json
