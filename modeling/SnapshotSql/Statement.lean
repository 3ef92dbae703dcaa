import SnapshotSql.Error.Plan
import SnapshotSql.Expr.Basic
import SnapshotSql.Expr.Fields
import SnapshotSql.Heap.Catalog
/-! # Statements -/

namespace SnapshotSql

/-! ## Select items and sort keys -/

structure SelectItem where
  expr : Expr
  asName : Option String := none
  deriving Inhabited

namespace SelectItem

/-- The name of the output cell. A plain field keeps its table, so that it can still be looked
up with it. -/
def cellName (item : SelectItem) : CellName :=
  match item.asName, item.expr with
  | some name, _ => .plain name
  | none, .field ref => .qualified ref.table ref.field
  | none, e => .plain e.render

def render (item : SelectItem) : String :=
  match item.asName with
  | some name => item.expr.render ++ " AS " ++ name
  | none => item.expr.render

def renderList (items : List SelectItem) : String := String.intercalate ", " (items.map render)

end SelectItem

structure SortKey where
  expr : Expr
  ascending : Bool
  deriving Inhabited

namespace SortKey

def render (key : SortKey) : String :=
  key.expr.render ++ if key.ascending then " ASC" else " DESC"

def renderList (keys : List SortKey) : String := String.intercalate ", " (keys.map render)

end SortKey

/-! ## Statements -/

mutual

inductive Source where
  | table (id : TableId)
  | query (select : Select) (qualifier : String)

/-- A FROM entry, with the condition of the JOIN that introduced it. -/
structure FromItem where
  source : Source
  on : Option Expr

structure Select where
  items : List SelectItem
  sources : List FromItem
  filter : Option Expr
  groupBy : List Expr
  having : Option Expr
  orderBy : List SortKey

end

structure Assignment where
  field : String
  value : Expr

inductive Statement where
  | compute (exprs : List Expr)
  | select (query : Select)
  | insert (table : TableId) (records : List (List Value))
  | delete (table : TableId) (filter : Option Expr)
  | update (table : TableId) (assignments : List Assignment) (filter : Option Expr)
  | explain (statement : Statement)
  | createTable (name : String) (columns : List Column)
  | renameTable (table : TableId) (newName : String)
  | showTables
  | begin
  | commit
  | rollback

def Source.name (c : Catalog) : Source → String
  | table id => c.tableName id
  | query _ qualifier => qualifier

namespace Select

def isAggregate (s : Select) : Bool :=
  !s.groupBy.isEmpty || s.having.isSome || s.items.any (·.expr.hasAggregate) ||
    s.orderBy.any (·.expr.hasAggregate)

mutual

def tables : Select → List TableId
  | ⟨_, sources, _, _, _, _⟩ => tablesOf sources

def tablesOf : List FromItem → List TableId
  | [] => []
  | ⟨.table id, _⟩ :: rest => id :: tablesOf rest
  | ⟨.query select _, _⟩ :: rest => select.tables ++ tablesOf rest

end

end Select

namespace Statement

def kind : Statement → StatementKind
  | compute _ => .compute
  | select _ => .select
  | insert .. => .insert
  | delete .. => .delete
  | update .. => .update
  | explain _ => .explain
  | createTable .. => .createTable
  | renameTable .. => .renameTable
  | showTables => .showTables
  | begin => .begin
  | commit => .commit
  | rollback => .rollback

def tableNames (c : Catalog) : Statement → List String
  | select query => Sorted.ofList (query.tables.map c.tableName)
  | insert table _ => [c.tableName table]
  | delete table _ => [c.tableName table]
  | update table _ _ => [c.tableName table]
  | explain statement => statement.tableNames c
  | createTable name _ => [name]
  | renameTable table _ => [c.tableName table]
  | _ => []

end Statement

end SnapshotSql
