/-! # Stored numbers -/

/-! ## Checked 64-bit integers -/

namespace SnapshotSql.Integer

def least : Int := -0x8000000000000000

def greatest : Int := 0x7fffffffffffffff

def ofInt? (n : Int) : Option Int64 :=
  if least ≤ n ∧ n ≤ greatest then some (Int64.ofInt n) else none

def add? (a b : Int64) : Option Int64 := ofInt? (a.toInt + b.toInt)

def sub? (a b : Int64) : Option Int64 := ofInt? (a.toInt - b.toInt)

def mul? (a b : Int64) : Option Int64 := ofInt? (a.toInt * b.toInt)

def neg? (a : Int64) : Option Int64 := ofInt? (-a.toInt)

def render (n : Int64) : String := toString n.toInt

end SnapshotSql.Integer

/-! ## Double-precision numbers -/

namespace SnapshotSql

/-- An IEEE 754 binary64 number, given by its bits. -/
structure Double where
  bits : UInt64
  deriving DecidableEq, Inhabited

namespace Double

def signWeight : Nat := 0x8000000000000000

def binade : Nat := 0x10000000000000

def magnitude (x : Double) : Nat := x.bits.toNat % signWeight

def isNegative (x : Double) : Bool := signWeight ≤ x.bits.toNat

/-- Magnitude of the infinities; larger magnitudes are NaNs. -/
def infinityMagnitude : Nat := 2047 * binade

def isNaN (x : Double) : Bool := infinityMagnitude < x.magnitude

def isInfinite (x : Double) : Bool := x.magnitude = infinityMagnitude

def isZero (x : Double) : Bool := x.magnitude = 0

def ofMagnitude (negative : Bool) (magnitude : Nat) : Double :=
  ⟨UInt64.ofNat (magnitude + if negative then signWeight else 0)⟩

def zero : Double := ofMagnitude false 0

def infinity (negative : Bool) : Double := ofMagnitude negative infinityMagnitude

/-- The answer of an invalid operation such as ∞ - ∞: a quiet NaN with the sign set. -/
def invalid : Double := ofMagnitude true (infinityMagnitude + binade / 2)

def quiet (x : Double) : Double := ⟨x.bits ||| 0x0008000000000000⟩

def neg (x : Double) : Double := ofMagnitude (!x.isNegative) x.magnitude

def shiftOf (magnitude : Nat) : Nat := magnitude / binade - 1

def significandOf (magnitude : Nat) : Nat := magnitude - shiftOf magnitude * binade

/-- The value of a magnitude in units of 2^-1074. The magnitude of infinity counts as 2^1024. -/
def unitsOf (magnitude : Nat) : Nat := significandOf magnitude <<< shiftOf magnitude

def divideToEven (n d : Nat) : Nat :=
  let q := n / d
  let twice := 2 * (n % d)
  if d < twice ∨ (twice = d ∧ q % 2 = 1) then q + 1 else q

/-- The magnitude nearest to `n / d * 2 ^ e` units, where `n` is zero or at least `d`. Values past
the largest double become infinite. -/
def roundScaled (n d : Nat) (e : Int) : Nat :=
  if n = 0 then 0
  else
    let shift := (Nat.log2 (n / d) + e - 52).toNat
    let significand := divideToEven (n <<< (e - shift).toNat) (d <<< (shift - e).toNat)
    min (shift * binade + significand) infinityMagnitude

def ofScaled (negative : Bool) (n d : Nat) (e : Int) : Double :=
  ofMagnitude negative (roundScaled n d e)

def ofInt (n : Int) : Double := ofScaled (n < 0) n.natAbs 1 1074

def shift (x : Double) : Nat := shiftOf x.magnitude

def significand (x : Double) : Nat := significandOf x.magnitude

def unitsAt (x : Double) (shift : Nat) : Int :=
  let n : Int := x.significand <<< (x.shift - shift)
  if x.isNegative then -n else n

def propagate (x y : Double) (answer : Double) : Double :=
  if x.isNaN then x.quiet else if y.isNaN then y.quiet else answer

/-- The sum of two numbers. A zero sum is negative only when both terms are. -/
def addNumbers (x y : Double) : Double :=
  if x.isInfinite then
    if y.isInfinite && x.isNegative != y.isNegative then invalid else x
  else if y.isInfinite then y
  else
    let shift := min x.shift y.shift
    let sum := x.unitsAt shift + y.unitsAt shift
    ofScaled (sum < 0 || (sum = 0 && x.isNegative && y.isNegative)) sum.natAbs 1 shift

def add (x y : Double) : Double := propagate x y (addNumbers x y)

def sub (x y : Double) : Double := propagate x y (addNumbers x y.neg)

def mul (x y : Double) : Double :=
  let negative := x.isNegative != y.isNegative
  propagate x y <|
    if x.isInfinite || y.isInfinite then
      if x.isZero || y.isZero then invalid else infinity negative
    else ofScaled negative (x.significand * y.significand) 1 (x.shift + y.shift - 1074)

def div (x y : Double) : Double :=
  let negative := x.isNegative != y.isNegative
  propagate x y <|
    if x.isInfinite then
      if y.isInfinite then invalid else infinity negative
    else if y.isInfinite then ofMagnitude negative 0
    else if y.isZero then
      if x.isZero then invalid else infinity negative
    else ofScaled negative (x.significand <<< 64) y.significand (x.shift - y.shift + 1010)

/-- Place of a number on the line of doubles: both zeros at 0, infinities outermost. -/
def rank (x : Double) : Int :=
  if x.isNegative then -(x.magnitude : Int) else x.magnitude

def compare (x y : Double) : Option Ordering :=
  if x.isNaN || y.isNaN then none else some (Ord.compare x.rank y.rank)

def same (x y : Double) : Bool := x.compare y == some .eq

/-- Place of a double in the total order: negative NaN, -∞, …, -0, +0, …, ∞, NaN. -/
def totalRank (x : Double) : Int :=
  if x.isNegative then -(x.magnitude : Int) - 1 else x.magnitude

def totalCompare (x y : Double) : Ordering := Ord.compare x.totalRank y.totalRank

end Double

end SnapshotSql
