import SnapshotSql.Operator.Basic
import SnapshotSql.Plan.Basic
/-! # Labels -/

namespace SnapshotSql

def Column.renderList (columns : List Column) : String :=
  String.intercalate ", " (columns.map Column.render)

namespace Operator

def columnText (schema : TableSchema) (i : Nat) : String :=
  (schema.columns[i]?.map (·.name)).getD "?"

def param (c : Catalog) : Operator → String
  | tableScan s =>
    c.tableName s.table ++
      if s.predicates.isEmpty then "" else " WHERE " ++ PlanNode.conditionText s.predicates
  | predicate condition _ _ => condition.render
  | project items _ _ => SelectItem.renderList items
  | compute exprs _ => Expr.renderList exprs
  | join .. => ""
  | insert table _ _ => c.tableName table
  | delete table _ _ => c.tableName table
  | update table assignments _ _ =>
    let schema := (c.table table).schema
    schema.name ++ " SET " ++ String.intercalate ", "
      (assignments.map fun (i, e) => columnText schema i ++ "=" ++ e.render)
  | explain .. => ""
  | createTable name columns => name ++ " (" ++ Column.renderList columns ++ ")"
  | rename table newName => c.tableName table ++ " TO " ++ newName
  | aggregate groupBy calls _ _ =>
    PlanNode.callsText calls ++
      if groupBy.isEmpty then "" else " GROUP BY " ++ Expr.renderList groupBy
  | sort keys _ _ => SortKey.renderList keys
  | subQuery qualifier _ => qualifier
  | cached .. => ""
  | stringList s => toString s.buffer.rows.size ++ " rows"

def label (c : Catalog) (op : Operator) : String :=
  let param := op.param c
  if param.isEmpty then op.kind.name else op.kind.name ++ "(" ++ param ++ ")"

def branch : Nat → String
  | 0 => ""
  | depth + 1 => Plan.indent depth ++ "└─"

mutual

def lines (c : Catalog) (depth : Nat) (op : Operator) : List String :=
  (branch depth ++ op.label c) :: match op with
  | predicate _ _ inputs => linesAll c (depth + 1) inputs
  | project _ inputs _ => linesAll c (depth + 1) inputs
  | join left right _ => left.lines c (depth + 1) ++ right.lines c (depth + 1)
  | delete _ input _ => input.lines c (depth + 1)
  | update _ _ input _ => input.lines c (depth + 1)
  | explain input _ => input.lines c (depth + 1)
  | aggregate _ _ input _ => input.lines c (depth + 1)
  | sort _ input _ => input.lines c (depth + 1)
  | subQuery _ input => input.lines c (depth + 1)
  | cached input _ _ => input.lines c (depth + 1)
  | _ => []

def linesAll (c : Catalog) (depth : Nat) : List Operator → List String
  | [] => []
  | op :: ops => op.lines c depth ++ linesAll c depth ops

end

/-- The tree as EXPLAIN shows it. -/
def explainLines (c : Catalog) (op : Operator) : List String := op.lines c 0

mutual

/-- How often each literal list of the tree was closed, in the order of the lines. -/
def closeCounts : Operator → List Nat
  | stringList s => [s.closes]
  | predicate _ _ inputs => closeCountsAll inputs
  | project _ inputs _ => closeCountsAll inputs
  | join left right _ => left.closeCounts ++ right.closeCounts
  | delete _ input _ => input.closeCounts
  | update _ _ input _ => input.closeCounts
  | explain input _ => input.closeCounts
  | aggregate _ _ input _ => input.closeCounts
  | sort _ input _ => input.closeCounts
  | subQuery _ input => input.closeCounts
  | cached input _ _ => input.closeCounts
  | _ => []

def closeCountsAll : List Operator → List Nat
  | [] => []
  | op :: ops => op.closeCounts ++ closeCountsAll ops

end

end Operator

end SnapshotSql
