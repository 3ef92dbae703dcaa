import SnapshotSql.Number.Basic
/-! # Text of numbers -/

namespace SnapshotSql

/-! ## Shortest decimals -/

structure Decimal where
  significand : Nat
  exponent : Int
  deriving DecidableEq, Inhabited

inductive Tie where
  | up
  | toEven
  deriving DecidableEq

namespace Decimal

def digits (d : Decimal) : List Char := Nat.toDigits 10 d.significand

def leadingExponent (d : Decimal) : Int := d.exponent + d.digits.length - 1

/-- A double's rounding interval: everything between `low` and `high` rounds to `mid`. All
three are in units of 2^-1075. -/
structure Interval where
  low : Nat
  mid : Nat
  high : Nat
  closed : Bool

/-- The interval of a positive magnitude. The ends belong to it when the significand is even. -/
def Interval.ofMagnitude (magnitude : Nat) : Interval where
  low := Double.unitsOf (magnitude - 1) + Double.unitsOf magnitude
  mid := 2 * Double.unitsOf magnitude
  high := Double.unitsOf magnitude + Double.unitsOf (magnitude + 1)
  closed := magnitude % 2 = 0

def Interval.hits (i : Interval) (step scale k : Nat) : Bool :=
  let point := k * step
  if i.closed then i.low * scale ≤ point && point ≤ i.high * scale
  else i.low * scale < point && point < i.high * scale

/-- Of the points `k` and `k + 1` around the value, the one in the interval, and of two such
points the nearer. -/
def Interval.pick (i : Interval) (tie : Tie) (step scale : Nat) : Option Nat :=
  let value := i.mid * scale
  let k := value / step
  match i.hits step scale k, i.hits step scale (k + 1) with
  | true, false => some k
  | false, true => some (k + 1)
  | false, false => none
  | true, true =>
    match compare (2 * (value % step)) step with
    | .lt => some k
    | .gt => some (k + 1)
    | .eq => match tie with
      | .up => some (k + 1)
      | .toEven => some (k + k % 2)

/-- Step and scale of the grid of multiples of 10 ^ exponent, in units of 2^-1075. -/
def gridOf (exponent : Int) : Nat × Nat :=
  match exponent with
  | .ofNat p => (Nat.pow 10 p <<< 1075, 1)
  | .negSucc p => (1 <<< 1075, Nat.pow 10 (p + 1))

def Interval.search (i : Interval) (tie : Tie) : Nat → Int → Decimal
  | 0, exponent =>
    let (step, scale) := gridOf exponent
    ⟨i.mid * scale / step, exponent⟩
  | tries + 1, exponent =>
    let (step, scale) := gridOf exponent
    match i.pick tie step scale with
    | some k => ⟨k, exponent⟩
    | none => i.search tie tries (exponent - 1)

def exponentAbove (magnitude : Nat) : Int :=
  (((Nat.log2 (Double.unitsOf magnitude) : Int) - 1074) * 30103).fdiv 100000 + 2

/-- The shortest decimal of a positive finite magnitude. Seventeen digits always suffice. -/
def shortest (tie : Tie) (magnitude : Nat) : Decimal :=
  (Interval.ofMagnitude magnitude).search tie 20 (exponentAbove magnitude)

end Decimal

/-! ## Written forms of doubles -/

structure FloatLayout where
  /-- Whether a number whose first digit stands at this power of ten is written positionally. -/
  positional : Int → Bool
  /-- Whether a positional whole number ends in `.0`. -/
  point : Bool
  tie : Tie
  nan : String
  infinity : String
  negativeInfinity : String

namespace FloatLayout

/-- SQL text never uses an exponent, and whole numbers have no point. -/
def sql : FloatLayout where
  positional := fun _ => true
  point := false
  tie := .up
  nan := "NaN"
  infinity := "inf"
  negativeInfinity := "-inf"

/-- JSON text is positional from 10^-5 up to below 10^16, and always shows that it is a float. -/
def json : FloatLayout where
  positional := fun e => decide (-5 ≤ e ∧ e ≤ 15)
  point := true
  tie := .toEven
  nan := "null"
  infinity := "null"
  negativeInfinity := "null"

private def zeros (n : Nat) : String := String.ofList (List.replicate n '0')

def positionalText (layout : FloatLayout) (d : Decimal) : String :=
  let digits := d.digits
  match d.exponent with
  | .ofNat e => String.ofList digits ++ zeros e ++ if layout.point then ".0" else ""
  | .negSucc e =>
    let places := e + 1
    if places < digits.length then
      String.ofList (digits.take (digits.length - places)) ++ "." ++
        String.ofList (digits.drop (digits.length - places))
    else "0." ++ zeros (places - digits.length) ++ String.ofList digits

def scientificText (d : Decimal) : String :=
  let e := d.leadingExponent
  let fraction := d.digits.drop 1
  String.ofList (d.digits.take 1) ++
    (if fraction.isEmpty then "" else "." ++ String.ofList fraction) ++
    "e" ++ (if e < 0 then "-" else "+") ++ toString e.natAbs

def magnitudeText (layout : FloatLayout) (magnitude : Nat) : String :=
  let d := if magnitude = 0 then ⟨0, 0⟩ else Decimal.shortest layout.tie magnitude
  if layout.positional d.leadingExponent then layout.positionalText d else scientificText d

def render (layout : FloatLayout) (x : Double) : String :=
  if x.isNaN then layout.nan
  else if x.isInfinite then
    if x.isNegative then layout.negativeInfinity else layout.infinity
  else (if x.isNegative then "-" else "") ++ layout.magnitudeText x.magnitude

end FloatLayout

end SnapshotSql
