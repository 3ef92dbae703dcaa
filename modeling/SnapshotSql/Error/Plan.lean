import SnapshotSql.Expr.Basic
/-! # Planning errors -/

namespace SnapshotSql

/-- The kinds of statements. -/
inductive StatementKind where
  | compute
  | select
  | insert
  | delete
  | update
  | explain
  | createTable
  | renameTable
  | showTables
  | begin
  | commit
  | rollback
  deriving DecidableEq

def StatementKind.name : StatementKind → String
  | compute => "calc"
  | select => "select"
  | insert => "insert"
  | delete => "delete"
  | update => "update"
  | explain => "explain"
  | createTable => "create_table"
  | renameTable => "rename_table"
  | showTables => "show_tables"
  | begin => "begin"
  | commit => "commit"
  | rollback => "rollback"

/-- The kinds of plan nodes. -/
inductive NodeKind where
  | tableGet
  | predicate
  | project
  | join
  | compute
  | insert
  | delete
  | update
  | explain
  | createTable
  | rename
  | aggregate
  | sort
  | subQuery
  | cached
  deriving DecidableEq

def NodeKind.name : NodeKind → String
  | tableGet => "table_get"
  | predicate => "predicate"
  | project => "project"
  | join => "join"
  | compute => "calc"
  | insert => "insert"
  | delete => "delete"
  | update => "update"
  | explain => "explain"
  | createTable => "create_table"
  | rename => "rename"
  | aggregate => "aggregate"
  | sort => "sort"
  | subQuery => "sub_query"
  | cached => "cached"

/-- How many children a node takes. -/
inductive Arity where
  | exactly (count : Nat)
  | atMostOne
  deriving DecidableEq

namespace Arity

def allows : Arity → Nat → Bool
  | exactly count, n => n == count
  | atMostOne, n => n ≤ 1

def render : Arity → String
  | exactly count => toString count
  | atMostOne => "0 or 1"

end Arity

/-- How many children each kind of node takes. -/
def NodeKind.arity : NodeKind → Arity
  | tableGet | compute | insert | createTable | rename => .exactly 0
  | predicate | delete | update | explain | aggregate | sort | subQuery | cached => .exactly 1
  | join => .exactly 2
  | project => .atMostOne

/-- The clauses that hold a condition. -/
inductive Clause where
  | filter
  | on
  | having
  deriving DecidableEq

def Clause.name : Clause → String
  | filter => "WHERE"
  | on => "ON"
  | having => "HAVING"

/-- Statements that have no plan. -/
inductive Unsupported where
  | command (kind : StatementKind)
  | emptySelectList
  | clauseWithoutFrom
  | aggregateInWhere
  | ungroupedField (ref : FieldRef)
  | aggregateInGroupBy (key : Expr)

def Unsupported.message : Unsupported → String
  | command kind => kind.name ++ " is a command, not a plannable statement"
  | emptySelectList => "empty select list"
  | clauseWithoutFrom => "clauses other than the select list need a FROM"
  | aggregateInWhere => "aggregate in WHERE"
  | ungroupedField ref =>
    ref.table ++ "." ++ ref.field ++ " must appear in GROUP BY or inside an aggregate"
  | aggregateInGroupBy key => "aggregate in GROUP BY: " ++ key.render

/-- Expressions of the wrong type for their place. -/
inductive TypeFault where
  | condition (clause : Clause) (expr : Expr)
  | assignment (value : DataType) (table column : String) (type : DataType)

def TypeFault.message : TypeFault → String
  | condition clause expr =>
    clause.name ++ " condition " ++ expr.render ++ " is " ++ expr.dataType.sqlName ++
      ", not boolean"
  | assignment value table column type =>
    "cannot assign " ++ value.sqlName ++ " to " ++ table ++ "." ++ column ++ " of type " ++
      type.sqlName

/-- Ill-formed plan trees. -/
inductive PlanFault where
  | wrongChildren (kind : NodeKind) (found : Nat)
  | notCondition (kind : NodeKind) (expr : Expr)
  | noColumn (table : String) (index : Nat)

def PlanFault.message : PlanFault → String
  | wrongChildren kind found =>
    kind.name ++ " node expects " ++ kind.arity.render ++ " child(ren), found " ++ toString found
  | notCondition kind expr =>
    kind.name ++ " node carries non-boolean condition " ++ expr.render
  | noColumn table index => "table " ++ table ++ " has no field #" ++ toString index

/-- Why planning or lowering fails. -/
inductive PlanError where
  | tableNotFound (table : String)
  | fieldNotFound (table field : String)
  | typeMismatch (fault : TypeFault)
  | unsupported (reason : Unsupported)
  | internal (fault : PlanFault)

def PlanError.message : PlanError → String
  | tableNotFound table => "table not found: " ++ table
  | fieldNotFound table field => "field not found: " ++ table ++ "." ++ field
  | typeMismatch fault => "type mismatch: " ++ fault.message
  | unsupported reason => "unsupported operation: " ++ reason.message
  | internal fault => "internal error: " ++ fault.message

end SnapshotSql
