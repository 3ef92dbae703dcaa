import SnapshotSql.Statement
import SnapshotSql.Transaction.Visibility
/-! # Plans -/

namespace SnapshotSql

/-! ## Planner options -/

/-- What a filter does with a contested row that fails its condition. -/
inductive ConflictPolicy where
  /-- Skip it like any other row. -/
  | absorbUnmatched
  /-- Report it all the same. -/
  | surfaceAll
  deriving DecidableEq, Inhabited

def ConflictPolicy.name : ConflictPolicy → String
  | absorbUnmatched => "AbsorbUnmatched"
  | surfaceAll => "SurfaceAll"

structure PlannerOptions where
  /-- Whether the inner side of a join over a table is buffered. -/
  cacheInner : Bool := true
  policy : ConflictPolicy := .absorbUnmatched
  deriving DecidableEq, Inhabited

/-! ## Logical plans -/

inductive PlanNode where
  /-- Scan a table for the given columns, keeping rows that satisfy all predicates. -/
  | tableGet (table : TableId) (columns : List Nat) (access : Access) (predicates : List Expr)
  | predicate (condition : Expr)
  | project (items : List SelectItem)
  | join
  | compute (exprs : List Expr)
  | insert (table : TableId) (records : List (List Value))
  | delete (table : TableId)
  /-- Set columns, given by index. -/
  | update (table : TableId) (assignments : List (Nat × Expr))
  | explain
  | createTable (name : String) (columns : List Column)
  | rename (table : TableId) (newName : String)
  | aggregate (groupBy : List Expr) (calls : List AggregateCall)
  | sort (keys : List SortKey)
  | subQuery (qualifier : String)
  | cached
  deriving Inhabited

namespace PlanNode

def kind : PlanNode → NodeKind
  | tableGet .. => .tableGet
  | predicate _ => .predicate
  | project _ => .project
  | join => .join
  | compute _ => .compute
  | insert .. => .insert
  | delete _ => .delete
  | update .. => .update
  | explain => .explain
  | createTable .. => .createTable
  | rename .. => .rename
  | aggregate .. => .aggregate
  | sort _ => .sort
  | subQuery _ => .subQuery
  | cached => .cached

def ownTable? (c : Catalog) : PlanNode → Option String
  | tableGet table .. => some (c.tableName table)
  | insert table _ => some (c.tableName table)
  | rename table _ => some (c.tableName table)
  | createTable name _ => some name
  | _ => none

end PlanNode

structure Plan where
  node : PlanNode
  children : List Plan
  /-- Names of the tables beneath, sorted. -/
  tables : List String

namespace Plan

/-- The table set of a node over its children. -/
def tableSet (c : Catalog) (node : PlanNode) (children : List Plan) : List String :=
  children.foldl (fun set child => Sorted.union set child.tables) (node.ownTable? c).toList

def build (c : Catalog) (node : PlanNode) (children : List Plan) : Plan :=
  ⟨node, children, tableSet c node children⟩

def leaf (c : Catalog) (node : PlanNode) : Plan := build c node []

def setChildren (c : Catalog) (p : Plan) (children : List Plan) : Plan := build c p.node children

def addChild (c : Catalog) (p : Plan) (child : Plan) : Plan :=
  p.setChildren c (p.children ++ [child])

def takeChildren (c : Catalog) (p : Plan) : Plan × List Plan := (p.setChildren c [], p.children)

def kind (p : Plan) : NodeKind := p.node.kind

mutual

def nodes : Plan → List PlanNode
  | ⟨node, children, _⟩ => node :: nodesAll children

def nodesAll : List Plan → List PlanNode
  | [] => []
  | p :: ps => p.nodes ++ nodesAll ps

end

end Plan

/-! ## Text of plans -/

def Access.render : Access → String
  | read => "read"
  | write => "write"

namespace PlanNode

def conditionText (predicates : List Expr) : String :=
  String.intercalate " AND " (predicates.map Expr.render)

def callsText (calls : List AggregateCall) : String :=
  String.intercalate ", " (calls.map AggregateCall.render)

def render (c : Catalog) : PlanNode → String
  | tableGet table _ access predicates =>
    "TableGet: " ++ c.tableName table ++ " (" ++ access.render ++ ")" ++
      if predicates.isEmpty then "" else " [" ++ conditionText predicates ++ "]"
  | predicate condition => "Predicate: " ++ condition.render
  | project items => "Project: " ++ SelectItem.renderList items
  | join => "Join"
  | compute exprs => "Calc: " ++ Expr.renderList exprs
  | insert table records =>
    "Insert: " ++ c.tableName table ++ " (" ++ toString records.length ++ " records)"
  | delete table => "Delete: " ++ c.tableName table
  | update table assignments =>
    "Update: " ++ c.tableName table ++ " (" ++ toString assignments.length ++ " fields)"
  | explain => "Explain"
  | createTable name _ => "CreateTable: " ++ name
  | rename table newName => "Rename: " ++ c.tableName table ++ " -> " ++ newName
  | aggregate groupBy calls =>
    "Aggregate: " ++ callsText calls ++
      if groupBy.isEmpty then "" else " GROUP BY " ++ Expr.renderList groupBy
  | sort keys => "Sort: " ++ SortKey.renderList keys
  | subQuery qualifier => "SubQuery: " ++ qualifier
  | cached => "Cached"

end PlanNode

namespace Plan

def indent (depth : Nat) : String := String.join (List.replicate depth "  ")

mutual

def lines (c : Catalog) (depth : Nat) : Plan → List String
  | ⟨node, children, _⟩ => (indent depth ++ node.render c) :: linesAll c (depth + 1) children

def linesAll (c : Catalog) (depth : Nat) : List Plan → List String
  | [] => []
  | p :: ps => p.lines c depth ++ linesAll c depth ps

end

def render (c : Catalog) (p : Plan) : String :=
  String.join ((p.lines c 0).map (· ++ "\n"))

end Plan

end SnapshotSql
