import AuthDict.Json.Basic

/-!
# JSON tokens

A text is first cut into tokens: punctuation, literals, numbers and quoted texts. Between them
stand blanks, tabs and line ends. A number is a minus sign if any, digits without a leading zero,
a fraction and an exponent; a quoted text holds no bare control character.
-/
namespace AuthDict.Json

inductive Token where
  | openArray
  | closeArray
  | openObject
  | closeObject
  | colon
  | comma
  /-- A document that is one token. -/
  | atom (value : Json)

def hexDigit? (c : Char) : Option Nat :=
  let n := c.toNat
  if 48 ≤ n ∧ n ≤ 57 then some (n - 48)
  else if 97 ≤ n ∧ n ≤ 102 then some (n - 87)
  else if 65 ≤ n ∧ n ≤ 70 then some (n - 55)
  else none

def hexUnit? (a b c d : Char) : Option Nat := do
  return (((← hexDigit? a) * 16 + (← hexDigit? b)) * 16 + (← hexDigit? c)) * 16 + (← hexDigit? d)

/-- The character an escape of one letter stands for. -/
def unescape? (c : Char) : Option Char :=
  if c = '"' then some '"'
  else if c = '\\' then some '\\'
  else if c = '/' then some '/'
  else if c = 'b' then some '\x08'
  else if c = 'f' then some '\x0c'
  else if c = 'n' then some '\n'
  else if c = 'r' then some '\r'
  else if c = 't' then some '\t'
  else none

/-- What has been read of a quoted text: its characters in reverse while it is Unicode text, and a
high surrogate that waits for its other half. -/
structure Quoted where
  chars : Option (List Char)
  high : Option Nat

namespace Quoted

def start : Quoted := ⟨some [], none⟩

/-- The text with a character that is not a surrogate. -/
def push (q : Quoted) (c : Char) : Quoted :=
  match q.high with
  | none => { q with chars := q.chars.map (c :: ·) }
  | some _ => ⟨none, none⟩

/-- The text with an escaped UTF-16 unit. -/
def pushUnit (q : Quoted) (unit : Nat) : Quoted :=
  if 0xd800 ≤ unit ∧ unit < 0xdc00 then
    match q.high with
    | none => { q with high := some unit }
    | some _ => ⟨none, none⟩
  else if 0xdc00 ≤ unit ∧ unit < 0xe000 then
    match q.high with
    | none => ⟨none, none⟩
    | some high =>
      let c := Char.ofNat (0x10000 + (high - 0xd800) * 1024 + (unit - 0xdc00))
      ⟨q.chars.map (c :: ·), none⟩
  else q.push (Char.ofNat unit)

def finish (q : Quoted) : JsonText :=
  match q.high with
  | none => q.chars.map fun cs => String.ofList cs.reverse
  | some _ => none

end Quoted

/-- Reads a text up to its closing quote. -/
def scanText (q : Quoted) : List Char → Option (JsonText × List Char)
  | '"' :: rest => some (q.finish, rest)
  | '\\' :: 'u' :: a :: b :: c :: d :: rest =>
    match hexUnit? a b c d with
    | some unit => scanText (q.pushUnit unit) rest
    | none => none
  | '\\' :: e :: rest =>
    match unescape? e with
    | some c => scanText (q.push c) rest
    | none => none
  | c :: rest => if c = '\\' ∨ c.toNat < 32 then none else scanText (q.push c) rest
  | [] => none

/-- The number a list of digits spells. -/
def natOfDigits (digits : List Char) : Nat :=
  digits.foldl (fun n c => 10 * n + (c.toNat - 48)) 0

def scanDigits (cs : List Char) : Option (List Char × List Char) :=
  match cs.takeWhile Char.isDigit with
  | [] => none
  | ds => some (ds, cs.dropWhile Char.isDigit)

/-- Digits without a leading zero, and what follows them. -/
def scanWhole : List Char → Option (List Char × List Char)
  | '0' :: rest => some (['0'], rest)
  | cs => scanDigits cs

/-- A point with digits, or nothing. -/
def scanFraction : List Char → Option (List Char × List Char)
  | '.' :: rest => (scanDigits rest).map fun (ds, rest) => ('.' :: ds, rest)
  | cs => some ([], cs)

/-- An exponent, or nothing. -/
def scanExponent : List Char → Option (List Char × List Char)
  | e :: sign :: rest =>
    if e = 'e' ∨ e = 'E' then
      if sign = '+' ∨ sign = '-' then
        (scanDigits rest).map fun (ds, rest) => (e :: sign :: ds, rest)
      else (scanDigits (sign :: rest)).map fun (ds, rest) => (e :: ds, rest)
    else some ([], e :: sign :: rest)
  | [e] => if e = 'e' ∨ e = 'E' then none else some ([], [e])
  | [] => some ([], [])

/-- The most digits of a number that is read for its value; `2 ^ 64 - 1` has as many. -/
def maxDigits : Nat := 20

def scanNumber (cs : List Char) : Option (Json × List Char) := do
  let (sign, cs) := match cs with
    | '-' :: rest => (['-'], rest)
    | cs => ([], cs)
  let (whole, cs) ← scanWhole cs
  let (fraction, cs) ← scanFraction cs
  let (exponent, cs) ← scanExponent cs
  if sign.isEmpty && fraction.isEmpty && exponent.isEmpty && whole.length ≤ maxDigits then
    return (.nat (natOfDigits whole), cs)
  else
    return (.number (String.ofList (sign ++ whole ++ fraction ++ exponent)), cs)

def isBlank (c : Char) : Bool := c = ' ' || c = '\n' || c = '\t' || c = '\r'

/-- Cuts a text into tokens, collected in reverse; `fuel` bounds the number of steps, each of which
takes a character at least. -/
def tokensFrom (read : List Token) : Nat → List Char → Option (List Token)
  | _, [] => some read.reverse
  | 0, _ => none
  | fuel + 1, c :: rest =>
    if isBlank c then tokensFrom read fuel rest
    else if c = '[' then tokensFrom (.openArray :: read) fuel rest
    else if c = ']' then tokensFrom (.closeArray :: read) fuel rest
    else if c = '\x7b' then tokensFrom (.openObject :: read) fuel rest
    else if c = '\x7d' then tokensFrom (.closeObject :: read) fuel rest
    else if c = ':' then tokensFrom (.colon :: read) fuel rest
    else if c = ',' then tokensFrom (.comma :: read) fuel rest
    else if c = '"' then
      match scanText .start rest with
      | some (s, rest) => tokensFrom (.atom (.text s) :: read) fuel rest
      | none => none
    else match c :: rest with
      | 'n' :: 'u' :: 'l' :: 'l' :: rest => tokensFrom (.atom .null :: read) fuel rest
      | 't' :: 'r' :: 'u' :: 'e' :: rest => tokensFrom (.atom (.bool true) :: read) fuel rest
      | 'f' :: 'a' :: 'l' :: 's' :: 'e' :: rest =>
        tokensFrom (.atom (.bool false) :: read) fuel rest
      | cs =>
        match scanNumber cs with
        | some (n, rest) => tokensFrom (.atom n :: read) fuel rest
        | none => none

def tokens? (cs : List Char) : Option (List Token) := tokensFrom [] cs.length cs

end AuthDict.Json
