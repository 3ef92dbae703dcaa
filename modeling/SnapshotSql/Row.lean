import SnapshotSql.Expr.Eval
import SnapshotSql.Statement
/-! # Rows -/

namespace SnapshotSql

/-- An owned row. Its names and values may differ in number. -/
structure Row where
  names : List CellName
  values : List Value
  rid : Option RowId := none
  deriving DecidableEq, Inhabited

inductive RowView where
  | empty
  | owned (row : Row)
  /-- The cells of a version at the given column indexes. -/
  | stored (names : List CellName) (indexes : List Nat) (version : Version)
  | joined (left right : RowView)
  | projected (items : List SelectItem) (inner : RowView)
  /-- The inner cells under an alias. -/
  | qualified (qualifier : String) (inner : RowView)
  deriving Inhabited

namespace RowView

def cellOf (cells : List α) (i count : Nat) : Except ExecError α :=
  match cells[i]? with
  | some a => .ok a
  | none => .error (.internal (.cellOutOfRange i count))

def cellCount : RowView → Nat
  | empty => 0
  | owned row => row.values.length
  | stored _ indexes _ => indexes.length
  | joined l r => l.cellCount + r.cellCount
  | projected items _ => items.length
  | qualified _ inner => inner.cellCount

def rid : RowView → Option RowId
  | empty => none
  | owned row => row.rid
  | stored _ _ v => some v.rid
  | joined .. => none
  | projected _ inner => inner.rid
  | qualified _ inner => inner.rid

def nameAt : RowView → Nat → Except ExecError CellName
  | empty, i => .error (.internal (.cellOutOfRange i 0))
  | owned row, i => cellOf row.names i row.names.length
  | stored names _ _, i => cellOf names i names.length
  | joined l r, i => if i < l.cellCount then l.nameAt i else r.nameAt (i - l.cellCount)
  | projected items _, i => (cellOf items i items.length).map (·.cellName)
  | qualified qualifier inner, i => (inner.nameAt i).map fun name => .qualified qualifier name.field

def firstAnswer (nameAt : Nat → Except ExecError CellName) (cellAt : Nat → Except ExecError Value)
    (wanted : CellName) : List Nat → Except ExecError (Option Value)
  | [] => .ok none
  | i :: rest => do
    let name ← nameAt i
    if name.answers wanted then (cellAt i).map some
    else firstAnswer nameAt cellAt wanted rest

mutual

def cellAt : RowView → Nat → Except ExecError Value
  | empty, i => .error (.internal (.cellOutOfRange i 0))
  | owned row, i => cellOf row.values i row.values.length
  | stored _ indexes v, i =>
    match indexes[i]?.bind (v.values[·]?) with
    | some a => .ok a
    | none => .error (.internal (.cellOutOfRange i indexes.length))
  | joined l r, i => if i < l.cellCount then l.cellAt i else r.cellAt (i - l.cellCount)
  | projected items inner, i => do
    let item ← cellOf items i items.length
    item.expr.eval fun name => inner.find name
  | qualified _ inner, i => inner.cellAt i

/-- The value of the first cell that answers a lookup. A join asks its left side first. -/
def find : RowView → CellName → Except ExecError (Option Value)
  | empty, _ => .ok none
  | owned row, wanted =>
    firstAnswer (fun i => cellOf row.names i row.names.length)
      (fun i => cellOf row.values i row.values.length) wanted (List.range row.values.length)
  | stored names indexes v, wanted =>
    firstAnswer (fun i => cellOf names i names.length)
      (fun i => match indexes[i]?.bind (v.values[·]?) with
        | some a => .ok a
        | none => .error (.internal (.cellOutOfRange i indexes.length)))
      wanted (List.range indexes.length)
  | joined l r, wanted => do
    match ← l.find wanted with
    | some a => pure (some a)
    | none => r.find wanted
  | projected items inner, wanted =>
    match items.find? fun item => item.cellName.answers wanted with
    | none => .ok none
    | some item => (item.expr.eval fun name => inner.find name).map some
  | qualified qualifier inner, wanted =>
    firstAnswer (fun i => (inner.nameAt i).map fun name => .qualified qualifier name.field)
      (fun i => inner.cellAt i) wanted (List.range inner.cellCount)

end

def names (view : RowView) : Except ExecError (List CellName) :=
  (List.range view.cellCount).mapM view.nameAt

def values (view : RowView) : Except ExecError (List Value) :=
  (List.range view.cellCount).mapM view.cellAt

/-- A copy of what the view shows. Names are read before values. -/
def copy (view : RowView) : Except ExecError Row := do
  let names ← view.names
  let values ← view.values
  pure { names, values, rid := view.rid }

def eval (view : RowView) (e : Expr) : Except ExecError Value := e.eval view.find

def holds (view : RowView) (e : Expr) : Except ExecError Bool := e.holds view.find

def evalAll (view : RowView) (es : List Expr) : Except ExecError (List Value) :=
  es.mapM view.eval

end RowView

end SnapshotSql
