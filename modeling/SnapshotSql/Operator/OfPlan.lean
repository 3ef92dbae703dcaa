import SnapshotSql.Operator.Basic
import SnapshotSql.Plan.Basic
/-! # Operators of plans -/

namespace SnapshotSql

namespace PlanNode

def checkConditions (kind : NodeKind) (conditions : List Expr) : Except PlanError Unit :=
  match conditions.find? fun e => !e.isCondition with
  | some e => .error (.internal (.notCondition kind e))
  | none => .ok ()

def toOperator (c : Catalog) (policy : ConflictPolicy) (node : PlanNode) (inputs : List Operator) :
    Except PlanError Operator :=
  let wrong := Except.error (PlanError.internal (.wrongChildren node.kind inputs.length))
  match node, inputs with
  | tableGet table columns access predicates, [] => do
    checkConditions .tableGet predicates
    let scan ← TableScan.create c table columns access predicates policy
    pure (.tableScan scan)
  | predicate condition, [input] => do
    checkConditions .predicate [condition]
    pure (.predicate condition policy [input])
  | project items, [] => .ok (.project items [] none)
  | project items, [input] => .ok (.project items [input] none)
  | join, [left, right] => .ok (.join left right {})
  | compute exprs, [] => .ok (.compute exprs {})
  | insert table records, [] => .ok (.insert table records none)
  | delete table, [input] => .ok (.delete table input none)
  | update table assignments, [input] => .ok (.update table assignments input none)
  | explain, [input] => .ok (.explain input {})
  | createTable name columns, [] => .ok (.createTable name columns)
  | rename table newName, [] => .ok (.rename table newName)
  | aggregate groupBy calls, [input] => .ok (.aggregate groupBy calls input {})
  | sort keys, [input] => .ok (.sort keys input {})
  | subQuery qualifier, [input] => .ok (.subQuery qualifier input)
  | cached, [input] => .ok (.cached input {} none)
  | _, _ => wrong

end PlanNode

namespace Plan

mutual

/-- The operator tree of a plan. Children are lowered before their parent is checked. -/
def lower (c : Catalog) (policy : ConflictPolicy) : Plan → Except PlanError Operator
  | ⟨node, children, _⟩ => do
    let inputs ← lowerAll c policy children
    node.toOperator c policy inputs

def lowerAll (c : Catalog) (policy : ConflictPolicy) : List Plan → Except PlanError (List Operator)
  | [] => .ok []
  | p :: ps => do
    let op ← p.lower c policy
    let ops ← lowerAll c policy ps
    pure (op :: ops)

end

end Plan

end SnapshotSql
