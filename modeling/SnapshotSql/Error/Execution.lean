import SnapshotSql.Error.Plan
import SnapshotSql.Expr.Basic
import SnapshotSql.Transaction.Basic
/-! # Execution errors -/

namespace SnapshotSql

inductive OperatorKind where
  | tableScan
  | predicate
  | project
  | compute
  | join
  | insert
  | delete
  | update
  | explain
  | createTable
  | rename
  | aggregate
  | sort
  | subQuery
  | cached
  | stringList
  deriving DecidableEq

def OperatorKind.name : OperatorKind → String
  | tableScan => "TABLE_SCAN"
  | predicate => "PREDICATE"
  | project => "PROJECT"
  | compute => "CALC"
  | join => "NESTED_LOOP_JOIN"
  | insert => "INSERT"
  | delete => "DELETE"
  | update => "UPDATE"
  | explain => "EXPLAIN"
  | createTable => "CREATE_TABLE"
  | rename => "RENAME"
  | aggregate => "AGGREGATE"
  | sort => "SORT"
  | subQuery => "SUB_QUERY"
  | cached => "CACHED"
  | stringList => "STRING_LIST"

/-- Uses of rows, operators and sessions that well-formed plans avoid. -/
inductive ExecFault where
  | cellOutOfRange (index count : Nat)
  | negateTwoOperands
  | wrongInputs (op : OperatorKind) (expected found : Nat)
  | notOpen (op : OperatorKind)
  | notStored (op : OperatorKind)
  | updateTarget (index : Nat)
  | alreadyInTransaction
  | derivedConflict (tables : List String)
  | stepLimit

def ExecFault.message : ExecFault → String
  | cellOutOfRange index count =>
    "cell index " ++ toString index ++ " out of range (" ++ toString count ++ " cells)"
  | negateTwoOperands => "negate with two operands"
  | wrongInputs op expected found =>
    op.name ++ " expects " ++ toString expected ++ " child(ren), found " ++ toString found
  | notOpen op => op.name ++ " used before open"
  | notStored op => op.name ++ " does not produce stored rows"
  | updateTarget index => "update target #" ++ toString index ++ " out of range"
  | alreadyInTransaction => "transaction already active"
  | derivedConflict tables => "conflict on a derived row of " ++ String.intercalate "," tables
  | stepLimit => "step limit reached"

inductive Overflow where
  | binary (op : ArithOp) (left right : Int64)
  | negation (operand : Int64)

def Overflow.render : Overflow → String
  | binary op left right =>
    Integer.render left ++ " " ++ op.render ++ " " ++ Integer.render right
  | negation operand => "-" ++ Integer.render operand

inductive ExecError where
  | plan (cause : PlanError)
  | storage (cause : StorageError)
  | transaction (cause : TxError)
  | fieldNotFound (name : CellName)
  | notNumeric (actual : DataType)
  | divisionByZero
  | overflow (operation : Overflow)
  | noCurrentRow (op : OperatorKind)
  | noTransaction
  | internal (fault : ExecFault)
  /-- A sort finds that its keys are in no order. It then returns to no caller. -/
  | sortPanic

namespace ExecError

def message : ExecError → String
  | plan cause => cause.message
  | storage cause => cause.message
  | transaction cause => cause.message
  | fieldNotFound name => "field not found: " ++ name.render
  | notNumeric actual => "type mismatch: expected numeric, got " ++ actual.sqlName
  | divisionByZero => "division by zero"
  | overflow operation => "integer overflow in " ++ operation.render
  | noCurrentRow op => "operator " ++ op.name ++ " has no current tuple"
  | noTransaction => "no active transaction"
  | internal fault => "internal error: " ++ fault.message
  | sortPanic => "user-provided comparison function does not correctly implement a total order"

def isRetryable : ExecError → Bool
  | transaction cause => cause.isRetryable
  | _ => false

end ExecError

end SnapshotSql
