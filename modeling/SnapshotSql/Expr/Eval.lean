import SnapshotSql.Error.Execution
import SnapshotSql.Value
/-! # Evaluation -/

namespace SnapshotSql

/-- How expressions find cells: a value, no such cell, or a failure. -/
abbrev Lookup := CellName → Except ExecError (Option Value)

def CompareOp.holds : CompareOp → Ordering → Bool
  | eq, o => o == .eq
  | ne, o => o != .eq
  | lt, o => o == .lt
  | le, o => o != .gt
  | gt, o => o == .gt
  | ge, o => o != .lt

namespace Value

def toDouble (v : Value) : Except ExecError Double :=
  match v.asDouble? with
  | some x => .ok x
  | none => .error (.notNumeric v.dataType)

/-- Comparison in a condition. Values that do not compare satisfy no comparison. -/
def satisfies (op : CompareOp) (a b : Value) : Bool :=
  match a.compare? b with
  | some o => op.holds o
  | none => false

def integerArith (op : ArithOp) (a b : Int64) : Option Int64 :=
  match op with
  | .add => Integer.add? a b
  | .sub => Integer.sub? a b
  | .mul => Integer.mul? a b
  | .div | .negate => none

def floatArith (op : ArithOp) (x y : Double) : Except ExecError Double :=
  match op with
  | .add => .ok (x.add y)
  | .sub => .ok (x.sub y)
  | .mul => .ok (x.mul y)
  | .div => if y.isZero then .error .divisionByZero else .ok (x.div y)
  | .negate => .error (.internal .negateTwoOperands)

/-- Two-operand arithmetic. NULL gives NULL, integers stay integers except under division, and
everything else numeric is computed in floats. -/
def arith (op : ArithOp) (a b : Value) : Except ExecError Value :=
  match a, b with
  | .null, _ => .ok .null
  | _, .null => .ok .null
  | .integer m, .integer n =>
    if op = .div then (floatArith op (.ofInt m.toInt) (.ofInt n.toInt)).map .float
    else match integerArith op m n with
      | some k => .ok (.integer k)
      | none => .error (.overflow (.binary op m n))
  | a, b => do
    let x ← a.toDouble
    let y ← b.toDouble
    (floatArith op x y).map .float

def negate : Value → Except ExecError Value
  | .null => .ok .null
  | .integer n =>
    match Integer.neg? n with
    | some k => .ok (.integer k)
    | none => .error (.overflow (.negation n))
  | .float x => .ok (.float x.neg)
  | v => .error (.notNumeric v.dataType)

end Value

def Lookup.require (find : Lookup) (name : CellName) : Except ExecError Value := do
  match ← find name with
  | some v => pure v
  | none => throw (.fieldNotFound name)

namespace Expr

mutual

def eval (find : Lookup) : Expr → Except ExecError Value
  | field ref => find.require (.qualified ref.table ref.field)
  | literal v => .ok v
  | comparison op l r => do
    let a ← l.eval find
    let b ← r.eval find
    pure (.boolean (a.satisfies op b))
  | junction kind terms => do
    let stopped ← evalUntil find (kind == .any) terms
    pure (.boolean (stopped == (kind == .any)))
  | arithmetic _ e none => do
    let a ← e.eval find
    a.negate
  | arithmetic op l (some r) => do
    let a ← l.eval find
    let b ← r.eval find
    a.arith op b
  | isNull e negated => do
    let a ← e.eval find
    pure (.boolean (a.isNull != negated))
  | aggregate fn arg => find.require (.plain (aggregate fn arg).render)

/-- Whether some term has the truth `stop`; no term after it is evaluated. -/
def evalUntil (find : Lookup) (stop : Bool) : List Expr → Except ExecError Bool
  | [] => .ok false
  | e :: es => do
    let a ← e.eval find
    if a.truth == stop then pure true else evalUntil find stop es

end

def holds (find : Lookup) (e : Expr) : Except ExecError Bool := do
  let a ← e.eval find
  pure a.truth

end Expr

end SnapshotSql
