import SnapshotSql.Number.Basic
import SnapshotSql.Value
/-! # Reading numbers -/

namespace SnapshotSql

structure NumberText where
  negative : Bool
  whole : List Nat
  fraction : Option (List Nat)
  /-- Sign and digits of the exponent. -/
  exponent : Option (Bool × List Nat)

namespace NumberText

def significandLimit : Nat := 0xffffffffffffffff

def exponentLimit : Nat := 0x7fffffff

/-- Append digits to a significand while it stays within the limit, and count the digits left
over. -/
def absorb (limit : Nat) : Nat → List Nat → Nat × Nat
  | n, [] => (n, 0)
  | n, d :: ds => if n * 10 + d ≤ limit then absorb limit (n * 10 + d) ds else (n, ds.length + 1)

def powerOfTen (k : Nat) : Double := .ofInt (Nat.pow 10 k)

def greatestPower : Nat := 308

def scaleDown : Nat → Double → Nat → Double
  | 0, x, _ => x
  | rounds + 1, x, k =>
    if k ≤ greatestPower then x.div (powerOfTen k)
    else if x.isZero then x
    else scaleDown rounds (x.div (powerOfTen greatestPower)) (k - greatestPower)

def scale (significand : Nat) (exponent : Int) : Option Double :=
  let x := Double.ofInt significand
  match exponent with
  | .ofNat k =>
    if k ≤ greatestPower then
      let y := x.mul (powerOfTen k)
      if y.isInfinite then none else some y
    else if x.isZero then some x else none
  | .negSucc k => some (scaleDown (k / greatestPower + 2) x (k + 1))

def scaleBy (significand : Nat) (exponent : Int) : Option (Bool × List Nat) → Option Double
  | none => scale significand exponent
  | some (negative, digits) =>
    match absorb exponentLimit 0 digits with
    | (e, 0) => scale significand (if negative then exponent - e else exponent + e)
    | _ => if significand = 0 || negative then some .zero else none

def magnitude (t : NumberText) : Option Double :=
  let (significand, dropped) := absorb significandLimit 0 t.whole
  let fraction := t.fraction.getD []
  let (significand, unread) := absorb significandLimit significand fraction
  scaleBy significand (dropped - (fraction.length - unread : Nat)) t.exponent

/-- The number as an integer, if it is written as one and fits. A negative zero does not. -/
def integer? (t : NumberText) : Option Int64 :=
  match t.fraction, t.exponent, absorb significandLimit 0 t.whole with
  | none, none, (n, 0) =>
    if t.negative then
      if n = 0 then none else Integer.ofInt? (-n)
    else Integer.ofInt? n
  | _, _, _ => none

def value? (t : NumberText) : Option Value :=
  match t.integer? with
  | some n => some (.integer n)
  | none => t.magnitude.map fun x => .float (if t.negative then x.neg else x)

end NumberText

end SnapshotSql
