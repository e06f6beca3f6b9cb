import AuthDict.Group.Basic
import AuthDict.Group.BaseField

/-!
# The ristretto255 group

Elements are held as points of the twisted Edwards curve `-x² + y² = 1 + d x² y²` in extended
coordinates `x = X/Z`, `y = Y/Z`, `xy = T/Z`. Several points stand for one element; `encode` gives
them one text and `decode?` accepts no other.
-/
namespace AuthDict

open BaseField

/-- A curve point in extended coordinates. -/
structure Ristretto where
  x : Nat
  y : Nat
  z : Nat
  t : Nat
deriving DecidableEq, Repr

namespace Ristretto

def d : Nat := 37095705934669439343138083508754565189542113879843219016388785533085940283555

def twiceD : Nat := BaseField.add d d

/-- The root of `-1 - d` that the uniform map uses. -/
def sqrtMinusDMinusOne : Nat :=
  25063068953384623474111414158702152701244531502492656460079210482610430750235

/-- The inverse root of `-1 - d` that the encoding uses. -/
def invSqrtMinusOneMinusD : Nat :=
  54469307008909316920995813868745141605393597292927456921205312896311721017578

def order : Nat := (1 <<< 252) + 27742317777372353535851937790883648493

def identity : Ristretto := ⟨0, 1, 1, 0⟩

def generator : Ristretto :=
  let x := 15112221349535400772501151409588531511454012693041857206046113283949847762202
  let y := 46316835694926478169428394003475163141307993866256225615783033603165251855960
  ⟨x, y, 1, mul x y⟩

def add (a b : Ristretto) : Ristretto :=
  let m := mul (sub a.y a.x) (sub b.y b.x)
  let n := mul (BaseField.add a.y a.x) (BaseField.add b.y b.x)
  let c := mul (mul a.t twiceD) b.t
  let w := mul (BaseField.add a.z a.z) b.z
  let e := sub n m
  let f := sub w c
  let g := BaseField.add w c
  let h := BaseField.add n m
  ⟨mul e f, mul g h, mul f g, mul e h⟩

def neg (a : Ristretto) : Ristretto := ⟨BaseField.neg a.x, a.y, a.z, BaseField.neg a.t⟩

/-- Adds `k` times `a` to the accumulator, low bits first; `bits` bounds the length of `k`. -/
def smulBits : Nat → Nat → Ristretto → Ristretto → Ristretto
  | 0, _, _, acc => acc
  | bits + 1, k, a, acc =>
    smulBits bits (k / 2) (add a a) (if k % 2 = 1 then add acc a else acc)

def smul (k : Nat) (a : Ristretto) : Ristretto := smulBits (k.log2 + 1) k a identity

def encode (a : Ristretto) : Block 32 :=
  let u := mul (BaseField.add a.z a.y) (sub a.z a.y)
  let v := mul a.x a.y
  let inv := (sqrtRatio 1 (mul u (mul v v))).2
  let den1 := mul inv u
  let den2 := mul inv v
  let zInv := mul (mul den1 den2) a.t
  let rotate := isNegative (mul a.t zInv)
  let x := if rotate then mul a.y sqrtMinusOne else a.x
  let y := if rotate then mul a.x sqrtMinusOne else a.y
  let den := if rotate then mul den1 invSqrtMinusOneMinusD else den2
  let y := if isNegative (mul x zInv) then BaseField.neg y else y
  .ofNat 32 (BaseField.abs (mul den (sub a.z y)))

/-- Accepts the encoding of each element and nothing else. -/
def decode? (b : Block 32) : Option Ristretto :=
  let s := b.toNat
  if p ≤ s || isNegative s then none else
  let ss := mul s s
  let u1 := sub 1 ss
  let u2 := BaseField.add 1 ss
  let u2s := mul u2 u2
  let v := sub (BaseField.neg (mul d (mul u1 u1))) u2s
  let (square, inv) := sqrtRatio 1 (mul v u2s)
  let denX := mul inv u2
  let denY := mul (mul inv denX) v
  let x := BaseField.abs (mul (BaseField.add s s) denX)
  let y := mul u1 denY
  let t := mul x y
  if !square || isNegative t || y == 0 then none else some ⟨x, y, 1, t⟩

def ofField (r₀ : Nat) : Ristretto :=
  let r := mul sqrtMinusOne (mul r₀ r₀)
  let u := mul (BaseField.add r 1) (sub 1 (mul d d))
  let v := mul (sub (BaseField.neg 1) (mul r d)) (BaseField.add r d)
  let (square, root) := sqrtRatio u v
  let s := if square then root else BaseField.neg (BaseField.abs (mul root r₀))
  let c := if square then BaseField.neg 1 else r
  let n := sub (mul (mul c (sub r 1)) (mul (sub d 1) (sub d 1))) v
  let w0 := mul (BaseField.add s s) v
  let w1 := mul n sqrtMinusDMinusOne
  let ss := mul s s
  let w2 := sub 1 ss
  let w3 := BaseField.add 1 ss
  ⟨mul w0 w3, mul w2 w1, mul w1 w3, mul w0 w2⟩

/-- The field element a half stands for: its low 255 bits, reduced. -/
def fieldOfHalf (b : Digest) : Nat := b.toNat % (1 <<< 255) % p

def ofUniform (lo hi : Digest) : Ristretto :=
  add (ofField (fieldOfHalf lo)) (ofField (fieldOfHalf hi))

instance : ProofGroup Ristretto where
  order := order
  identity := identity
  generator := generator
  add := add
  neg := neg
  smul := smul
  encode := encode
  decode? := decode?
  ofUniform := ofUniform

end Ristretto

end AuthDict
