import AuthDict.Bytes

/-!
# Quoted characters in messages

A byte named in a message is shown as the character with its number, between single quotes.
Characters that print are shown as they are; the quote, the backslash, tabs, line ends and zero
have escapes of one letter, and all others are shown by their number in hexadecimal.
-/
namespace AuthDict

/-- Whether a character below 256 prints: controls, the no-break space and the soft hyphen do
not. -/
def printsBelow256 (n : Nat) : Bool :=
  32 ≤ n && n ≤ 126 || 161 ≤ n && n != 173

/-- The hexadecimal digits of a byte without a leading zero. -/
def shortHex (n : Nat) : List Char :=
  if n < 16 then [Hex.digit n] else [Hex.digit (n / 16), Hex.digit (n % 16)]

/-- A byte as a quoted character. -/
def quotedByte (b : UInt8) : String :=
  let n := b.toNat
  let shown : List Char :=
    if n = 0 then ['\\', '0']
    else if n = 9 then ['\\', 't']
    else if n = 10 then ['\\', 'n']
    else if n = 13 then ['\\', 'r']
    else if n = 39 then ['\\', '\'']
    else if n = 92 then ['\\', '\\']
    else if printsBelow256 n then [Char.ofNat n]
    else ['\\', 'u', '\x7b'] ++ shortHex n ++ ['\x7d']
  String.ofList ('\'' :: (shown ++ ['\'']))

def Hex.Fault.message : Hex.Fault → String
  | oddLength => "Odd number of digits"
  | badDigit unit index => "Invalid character " ++ quotedByte unit ++ " at position " ++ toString index

end AuthDict
