import SnapshotSql.Operator.Basic
import SnapshotSql.StableSort
/-! # Groups and sorted rows -/

namespace SnapshotSql

/-! ## Grouping -/

structure Accumulator where
  fn : AggregateFn
  count : Nat := 0
  sum : Option Value := none
  best : Option Value := none

namespace Accumulator

def numeric : Value → Except ExecError Value
  | .integer n => .ok (.integer n)
  | .float x => .ok (.float x)
  | v => .error (.notNumeric v.dataType)

/-- The running sum with one more value. Integers add exactly, and everything else in floats. -/
def plus (sum v : Value) : Except ExecError Value := do
  match sum, ← numeric v with
  | .integer a, .integer b =>
    match Integer.add? a b with
    | some n => pure (.integer n)
    | none => throw (.overflow (.binary .add a b))
  | a, b => pure (.float ((a.asDouble?.getD .zero).add (b.asDouble?.getD .zero)))

def improves (wanted : Ordering) (v : Value) : Option Value → Bool
  | none => true
  | some best => v.totalCompare best == wanted

def add (a : Accumulator) (v : Value) : Except ExecError Accumulator :=
  let a := { a with count := a.count + 1 }
  match a.fn with
  | .count => .ok a
  | .sum | .avg => do
    let sum ← match a.sum with
      | none => numeric v
      | some sum => plus sum v
    pure { a with sum := some sum }
  | .min => .ok (if improves .lt v a.best then { a with best := some v } else a)
  | .max => .ok (if improves .gt v a.best then { a with best := some v } else a)

/-- Take in one row: the value of the call's argument, or nothing for a call that counts rows. -/
def feed (a : Accumulator) : Option Value → Except ExecError Accumulator
  | none => .ok { a with count := a.count + 1 }
  | some v => if v.isNull then .ok a else a.add v

def result (a : Accumulator) : Value :=
  match a.fn with
  | .count => .integer (Int64.ofNat a.count)
  | .sum => a.sum.getD .null
  | .avg =>
    match a.sum.bind (·.asDouble?) with
    | some sum => if a.count = 0 then .null else .float (sum.div (.ofInt a.count))
    | none => .null
  | .min | .max => a.best.getD .null

end Accumulator

structure Group where
  key : List Value
  accumulators : List Accumulator
  contested : Bool := false

namespace Group

def create (calls : List AggregateCall) (key : List Value) : Group where
  key
  accumulators := calls.map fun call => { fn := call.fn }

/-- Keys are equal when their values are equal in the total order. -/
def sameKey : List Value → List Value → Bool
  | [], [] => true
  | x :: xs, y :: ys => x.totalCompare y == .eq && sameKey xs ys
  | _, _ => false

def feedAll (view : RowView) : List Accumulator → List AggregateCall →
    Except ExecError (List Accumulator)
  | a :: as, call :: calls => do
    let input ← match call.arg with
      | none => pure none
      | some arg => (view.eval arg).map some
    let a ← a.feed input
    let as ← feedAll view as calls
    pure (a :: as)
  | _, _ => .ok []

/-- Take a row into the group. -/
def feed (calls : List AggregateCall) (view : RowView) (step : Step) (g : Group) :
    Except ExecError Group := do
  let accumulators ← feedAll view g.accumulators calls
  pure { g with accumulators, contested := g.contested || step = .contested }

def feedGroups (groupBy : List Expr) (calls : List AggregateCall) (groups : Array Group)
    (view : RowView) (step : Step) : Except ExecError (Array Group) := do
  let key ← view.evalAll groupBy
  match groups.findIdx? fun g => sameKey g.key key with
  | some i =>
    let g ← (groups[i]?.getD (create calls key)).feed calls view step
    pure (groups.setIfInBounds i g)
  | none =>
    let g ← (create calls key).feed calls view step
    pure (groups.push g)

def cellNames (groupBy : List Expr) (calls : List AggregateCall) : List CellName :=
  groupBy.map (fun e => ({ expr := e } : SelectItem).cellName) ++
    calls.map fun call => .plain call.render

def output (names : List CellName) (g : Group) : Row × Step :=
  ({ names, values := g.key ++ g.accumulators.map (·.result) },
    if g.contested then .contested else .row)

/-- The output of all groups. Without keys there is one group even if there were no rows. -/
def outputs (groupBy : List Expr) (calls : List AggregateCall) (groups : Array Group) :
    Array (Row × Step) :=
  let groups := if groups.isEmpty && groupBy.isEmpty then #[create calls []] else groups
  groups.map (output (cellNames groupBy calls))

end Group

/-! ## Sorting rows -/

structure KeyedRow where
  keys : List Value
  row : Row
  step : Step

namespace KeyedRow

/-- The order of two values of one key. NULL comes first in either direction. -/
def compareKey (key : SortKey) (x y : Value) : Ordering :=
  match x.isNull, y.isNull with
  | true, true => .eq
  | true, false => .lt
  | false, true => .gt
  | false, false => if key.ascending then x.totalCompare y else y.totalCompare x

def compareKeys : List SortKey → List Value → List Value → Ordering
  | key :: keys, x :: xs, y :: ys => (compareKey key x y).then (compareKeys keys xs ys)
  | _, _, _ => .eq

def ofView (keys : List SortKey) (view : RowView) (step : Step) : Except ExecError KeyedRow := do
  let values ← view.evalAll (keys.map (·.expr))
  let row ← view.copy
  pure ⟨values, row, step⟩

def before (keys : List SortKey) (a b : KeyedRow) : Bool := compareKeys keys a.keys b.keys == .lt

def sorted (keys : List SortKey) (rows : List KeyedRow) : Except ExecError (Array (Row × Step)) :=
  match StableSort.sort (before keys) rows with
  | some rows => .ok (rows.map fun r => (r.row, r.step)).toArray
  | none => .error .sortPanic

end KeyedRow

end SnapshotSql
