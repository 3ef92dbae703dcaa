import SnapshotSql.Plan.Basic
import SnapshotSql.Row
/-! # Operators -/

namespace SnapshotSql

inductive Step where
  | row
  /-- A row that another transaction is changing. -/
  | contested
  | done
  deriving DecidableEq, Inhabited

def Step.combine (a b : Step) : Step :=
  if a = .contested ∨ b = .contested then .contested else .row

structure Buffer where
  rows : Array (Row × Step) := #[]
  position : Nat := 0
  current : Option Nat := none
  deriving Inhabited

namespace Buffer

def next (b : Buffer) : Step × Buffer :=
  match b.rows[b.position]? with
  | some (_, step) => (step, { b with position := b.position + 1, current := some b.position })
  | none => (.done, { b with current := none })

def row? (b : Buffer) : Option Row := (b.current.bind (b.rows[·]?)).map (·.1)

def rewind (b : Buffer) : Buffer := { b with position := 0, current := none }

def leave (b : Buffer) : Buffer := { b with current := none }

def clear (b : Buffer) : Buffer := { b with rows := #[], current := none }

end Buffer

structure TableScan where
  table : TableId
  columns : List Nat
  /-- The cell names of the columns, fixed when the scan is built. -/
  names : List CellName
  access : Access
  predicates : List Expr
  policy : ConflictPolicy
  opened : Option (TxHandle × Snapshot) := none
  cursor : Nat := 0
  current : Option Version := none

/-- A literal list of rows, counting how often it was closed. -/
structure StringList where
  buffer : Buffer
  closes : Nat := 0

structure Emission where
  emitted : Bool := false
  current : Option Row := none
  deriving Inhabited

structure JoinState where
  tx : Option TxHandle := none
  /-- The step of the left row whose partners are being listed. -/
  leftStep : Option Step := none
  deriving Inhabited

/-- A tree of operators with their progress. Operators that change rows remember how many. -/
inductive Operator where
  | tableScan (scan : TableScan)
  | predicate (condition : Expr) (policy : ConflictPolicy) (inputs : List Operator)
  /-- Without inputs, the row projected is a literal one made when the operator is opened. -/
  | project (items : List SelectItem) (inputs : List Operator) (literal : Option StringList)
  | compute (exprs : List Expr) (emission : Emission)
  | join (left right : Operator) (state : JoinState)
  | insert (table : TableId) (records : List (List Value)) (affected : Option Nat)
  | delete (table : TableId) (input : Operator) (affected : Option Nat)
  | update (table : TableId) (assignments : List (Nat × Expr)) (input : Operator)
      (affected : Option Nat)
  | explain (input : Operator) (emission : Emission)
  | createTable (name : String) (columns : List Column)
  | rename (table : TableId) (newName : String)
  | aggregate (groupBy : List Expr) (calls : List AggregateCall) (input : Operator)
      (buffer : Buffer)
  | sort (keys : List SortKey) (input : Operator) (buffer : Buffer)
  | subQuery (qualifier : String) (input : Operator)
  /-- The buffer is replayed for as long as the transaction that filled it opens the operator. -/
  | cached (input : Operator) (buffer : Buffer) (owner : Option TxHandle)
  | stringList (strings : StringList)
  deriving Inhabited

namespace TableScan

def create (c : Catalog) (table : TableId) (columns : List Nat) (access : Access)
    (predicates : List Expr) (policy : ConflictPolicy) : Except PlanError TableScan := do
  let schema := (c.table table).schema
  let names ← columns.mapM fun i =>
    match schema.columns[i]? with
    | some column => Except.ok (CellName.qualified schema.name column.name)
    | none => Except.error (PlanError.internal (.noColumn schema.name i))
  pure { table, columns, names, access, predicates, policy }

def view (s : TableScan) (v : Version) : RowView := .stored s.names s.columns v

end TableScan

namespace StringList

def create (column : String) (strings : List String) : StringList where
  buffer := { rows := (strings.map fun s =>
    (({ names := [.plain column], values := [.text s] } : Row), Step.row)).toArray }

def singleEmptyRow : StringList := create "" [""]

def close (s : StringList) : StringList := { buffer := s.buffer.leave, closes := s.closes + 1 }

end StringList

namespace Operator

def kind : Operator → OperatorKind
  | tableScan _ => .tableScan
  | predicate .. => .predicate
  | project .. => .project
  | compute .. => .compute
  | join .. => .join
  | insert .. => .insert
  | delete .. => .delete
  | update .. => .update
  | explain .. => .explain
  | createTable .. => .createTable
  | rename .. => .rename
  | aggregate .. => .aggregate
  | sort .. => .sort
  | subQuery .. => .subQuery
  | cached .. => .cached
  | stringList _ => .stringList

def inputs : Operator → List Operator
  | predicate _ _ inputs => inputs
  | project _ inputs _ => inputs
  | join left right _ => [left, right]
  | delete _ input _ => [input]
  | update _ _ input _ => [input]
  | explain input _ => [input]
  | aggregate _ _ input _ => [input]
  | sort _ input _ => [input]
  | subQuery _ input => [input]
  | cached input _ _ => [input]
  | _ => []

def affected : Operator → Option Nat
  | insert _ _ affected => affected
  | delete _ _ affected => affected
  | update _ _ _ affected => affected
  | _ => none

def ownedRow (kind : OperatorKind) : Option Row → Except ExecError RowView
  | some row => .ok (.owned row)
  | none => .error (.noCurrentRow kind)

def current : Operator → Except ExecError RowView
  | tableScan s =>
    match s.current with
    | some v => .ok (s.view v)
    | none => .error (.noCurrentRow .tableScan)
  | predicate _ _ [] => .error (.noCurrentRow .predicate)
  | predicate _ _ (input :: _) => input.current
  | project items (input :: _) _ => input.current.map (.projected items)
  | project items [] (some literal) =>
    (ownedRow .stringList literal.buffer.row?).map (.projected items)
  | project _ [] none => .error (.internal (.notOpen .project))
  | compute _ e => ownedRow .compute e.current
  | join left right _ => do
    let l ← left.current
    let r ← right.current
    pure (.joined l r)
  | insert .. => .error (.noCurrentRow .insert)
  | delete .. => .error (.noCurrentRow .delete)
  | update .. => .error (.noCurrentRow .update)
  | explain _ e => ownedRow .explain e.current
  | createTable .. => .error (.noCurrentRow .createTable)
  | rename .. => .error (.noCurrentRow .rename)
  | aggregate _ _ _ b => ownedRow .aggregate b.row?
  | sort _ _ b => ownedRow .sort b.row?
  | subQuery qualifier input => input.current.map (.qualified qualifier)
  | cached _ b _ => ownedRow .cached b.row?
  | stringList s => ownedRow .stringList s.buffer.row?

def currentRow (op : Operator) : Except ExecError Row := op.current.bind (·.copy)

mutual

/-- Release what was opened. Closing never fails and may be repeated. -/
def close : Operator → Operator
  | tableScan s => tableScan { s with opened := none, current := none }
  | predicate condition policy inputs => predicate condition policy (closeAll inputs)
  | project items inputs literal => project items (closeAll inputs) (literal.map (·.close))
  | compute exprs e => compute exprs { e with current := none }
  | join left right _ => join left.close right.close {}
  | delete table input affected => delete table input.close affected
  | update table assignments input affected => update table assignments input.close affected
  | explain input e => explain input { e with current := none }
  | aggregate groupBy calls input b => aggregate groupBy calls input.close b.clear
  | sort keys input b => sort keys input.close b.clear
  | subQuery qualifier input => subQuery qualifier input.close
  | cached input b owner => cached input b.leave owner
  | stringList s => stringList s.close
  | insert table records affected => insert table records affected
  | createTable name columns => createTable name columns
  | rename table newName => rename table newName

def closeAll : List Operator → List Operator
  | [] => []
  | op :: ops => op.close :: closeAll ops

end

end Operator

end SnapshotSql
