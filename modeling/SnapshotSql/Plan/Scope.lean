import SnapshotSql.Statement
/-! # Name resolution -/

namespace SnapshotSql

inductive Offer where
  | columns (schema : TableSchema)
  /-- The output names of a sub-query. -/
  | outputs (names : List String)

structure ScopeEntry where
  name : String
  offer : Offer

abbrev Needs := List (List Nat)

namespace ScopeEntry

def ofFromItem (c : Catalog) (item : FromItem) : ScopeEntry where
  name := item.source.name c
  offer := match item.source with
    | .table id => .columns (c.table id).schema
    | .query select _ => .outputs (select.items.map (·.cellName.field))

def isTable (s : ScopeEntry) : Bool :=
  match s.offer with
  | .columns _ => true
  | .outputs _ => false

end ScopeEntry

namespace FieldRef

def resolve (scope : List ScopeEntry) (needs : Needs) (ref : FieldRef) : Except PlanError Needs :=
  match scope.findIdx? (·.name == ref.table) with
  | none => .error (.tableNotFound ref.table)
  | some i =>
    match scope[i]? with
    | some ⟨_, .columns schema⟩ =>
      match schema.columnIndex? ref.field with
      | some column => .ok (needs.modify i (Sorted.insert column))
      | none => .error (.fieldNotFound ref.table ref.field)
    | some ⟨_, .outputs names⟩ =>
      if names.contains ref.field then .ok needs
      else .error (.fieldNotFound ref.table ref.field)
    | none => .error (.tableNotFound ref.table)

end FieldRef

namespace Expr

def resolve (scope : List ScopeEntry) (needs : Needs) (e : Expr) : Except PlanError Needs :=
  e.fields.foldlM (FieldRef.resolve scope) needs

/-- The source whose scan may test a conjunct: the first table of the one name it reads. -/
def pushTarget? (scope : List ScopeEntry) (e : Expr) : Option Nat :=
  match e.tables with
  | [name] => scope.findIdx? fun s => s.name == name && s.isTable
  | _ => none

def ungrouped? (grouped : List FieldRef) (e : Expr) : Option FieldRef :=
  e.plainFields.find? fun ref => !grouped.any fun g => g.table == ref.table && g.field == ref.field

end Expr

namespace Select

/-- Resolve the ON conditions from the `i`-th source on. Each sees the sources up to its own. -/
def resolveJoins (scope : List ScopeEntry) : Nat → List FromItem → Needs → Except PlanError Needs
  | _, [], needs => .ok needs
  | i, ⟨_, none⟩ :: rest, needs => resolveJoins scope (i + 1) rest needs
  | i, ⟨_, some on⟩ :: rest, needs => do
    let needs ← on.resolve (scope.take (i + 1)) needs
    resolveJoins scope (i + 1) rest needs

/-- The expressions evaluated above all joins, in the order in which they are resolved. -/
def clauses (s : Select) : List Expr :=
  s.items.map (·.expr) ++ s.filter.toList ++ s.groupBy ++ s.having.toList ++
    s.orderBy.map (·.expr)

def resolve (s : Select) (scope : List ScopeEntry) : Except PlanError Needs := do
  let needs ← s.clauses.foldlM (fun needs e => e.resolve scope needs) (s.sources.map fun _ => [])
  resolveJoins scope 0 s.sources needs

end Select

end SnapshotSql
