/-!
# The base field of 2²⁵⁵ - 19 elements

Field elements are natural numbers below `p`; every operation here returns one. An element is
negative when its least residue is odd, which picks one of each pair `x, -x`.
-/
namespace AuthDict.BaseField

def p : Nat := (1 <<< 255) - 19

def add (a b : Nat) : Nat := (a + b) % p

def sub (a b : Nat) : Nat := (a + (p - b % p)) % p

def mul (a b : Nat) : Nat := a * b % p

def neg (a : Nat) : Nat := (p - a % p) % p

/-- The power, by squaring; `bits` bounds the binary length of the exponent. -/
def powBits : Nat → Nat → Nat → Nat
  | 0, _, _ => 1
  | bits + 1, a, e =>
    let r := powBits bits (mul a a) (e / 2)
    if e % 2 = 1 then mul a r else r

def pow (a e : Nat) : Nat := powBits (e.log2 + 1) a e

def isNegative (a : Nat) : Bool := a % 2 = 1

/-- The nonnegative one of `a` and `-a`. -/
def abs (a : Nat) : Nat := if isNegative a then neg a else a

def sqrtMinusOne : Nat :=
  19681161376707505956807079304988542015446066515923890162744021073123829784752

/-- The nonnegative square root of `u / v` if there is one, else that of `sqrtMinusOne * u / v`;
the flag tells which. Zero stands for the root when `v` is zero. -/
def sqrtRatio (u v : Nat) : Bool × Nat :=
  let v3 := mul (mul v v) v
  let v7 := mul (mul v3 v3) v
  let r := mul (mul u v3) (pow (mul u v7) ((p - 5) / 8))
  let check := mul v (mul r r)
  let minusU := neg u
  let flipped := check == minusU
  let flippedI := check == mul minusU sqrtMinusOne
  let root := if flipped || flippedI then mul sqrtMinusOne r else r
  (check == u || flipped, abs root)

end AuthDict.BaseField
