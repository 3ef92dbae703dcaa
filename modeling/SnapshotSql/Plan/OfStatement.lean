import SnapshotSql.Expr.Fields
import SnapshotSql.Plan.Basic
import SnapshotSql.Plan.Scope
/-! # Planning -/

namespace SnapshotSql

namespace Expr

def checkCondition (clause : Clause) (e : Expr) : Except PlanError Unit :=
  if e.isCondition then .ok () else .error (.typeMismatch (.condition clause e))

end Expr

namespace Plan

def filtered (c : Catalog) (condition : Expr) (p : Plan) : Plan :=
  build c (.predicate condition) [p]

def checkFilter : Option Expr → Except PlanError Unit
  | none => .ok ()
  | some filter => do
    filter.checkCondition .filter
    if filter.hasAggregate then throw (.unsupported .aggregateInWhere)

/-- The conditions that each source's scan tests, and those left above the joins. -/
structure FilterSplit where
  pushed : List (List Expr)
  rest : List Expr

def FilterSplit.place (scope : List ScopeEntry) (s : FilterSplit) (e : Expr) : FilterSplit :=
  match e.pushTarget? scope with
  | some i => { s with pushed := s.pushed.modify i (· ++ [e]) }
  | none => { s with rest := s.rest ++ [e] }

/-- Distribute a WHERE condition. With a single source it stays in one piece. -/
def splitFilter (scope : List ScopeEntry) (filter : Option Expr) : FilterSplit :=
  let none : FilterSplit := ⟨scope.map fun _ => [], []⟩
  match filter with
  | .none => none
  | some e =>
    if scope.length = 1 then { none with rest := [e] }
    else e.conjuncts.foldl (FilterSplit.place scope) none

def ofSourceless (c : Catalog) (s : Select) : Except PlanError Plan :=
  if s.filter.isSome || !s.groupBy.isEmpty || s.having.isSome || !s.orderBy.isEmpty ||
      s.isAggregate then
    .error (.unsupported .clauseWithoutFrom)
  else match s.items.findSome? fun item => item.expr.tables.head? with
    | some table => .error (.tableNotFound table)
    | none => .ok (leaf c (.project s.items))

def grouped (c : Catalog) (s : Select) (input : Plan) : Except PlanError Plan := do
  let keys := s.groupBy.filterMap fun
    | .field ref => some ref
    | _ => none
  let above := s.items.map (·.expr) ++ s.having.toList ++ s.orderBy.map (·.expr)
  match above.findSome? (Expr.ungrouped? keys) with
  | some ref => throw (.unsupported (.ungroupedField ref))
  | none => pure ()
  match s.groupBy.find? (·.hasAggregate) with
  | some key => throw (.unsupported (.aggregateInGroupBy key))
  | none => pure ()
  let plan := build c (.aggregate s.groupBy (Expr.distinctCalls above)) [input]
  match s.having with
  | none => pure plan
  | some having =>
    having.checkCondition .having
    pure (filtered c having plan)

/-- Attach the next source to the plan of the earlier ones. Only tables are buffered. -/
def attach (c : Catalog) (options : PlannerOptions) (isTable : Bool) (left : Option Plan)
    (input : Plan) : Plan :=
  match left with
  | none => input
  | some left =>
    let right := if options.cacheInner && isTable then build c .cached [input] else input
    build c .join [left, right]

def applyOn (c : Catalog) (on : Option Expr) (p : Plan) : Except PlanError Plan :=
  match on with
  | none => .ok p
  | some on => do
    on.checkCondition .on
    pure (filtered c on p)

def finish (c : Catalog) (s : Select) (rest : List Expr) (joins : Plan) :
    Except PlanError Plan := do
  let plan := match Expr.ofConjuncts? rest with
    | some condition => filtered c condition joins
    | none => joins
  let plan ← if s.isAggregate then grouped c s plan else pure plan
  let plan := if s.orderBy.isEmpty then plan else build c (.sort s.orderBy) [plan]
  pure (build c (.project s.items) [plan])

mutual

def ofSelect (c : Catalog) (options : PlannerOptions) : Select → Except PlanError Plan
  | ⟨items, sources, filter, groupBy, having, orderBy⟩ => do
    let s : Select := ⟨items, sources, filter, groupBy, having, orderBy⟩
    if items.isEmpty then throw (.unsupported .emptySelectList)
    if sources.isEmpty then ofSourceless c s
    else
      let scope := sources.map (ScopeEntry.ofFromItem c)
      let needs ← s.resolve scope
      checkFilter filter
      let split := splitFilter scope filter
      match ← ofSources c options none (needs.zip split.pushed) sources with
      | some joins => finish c s split.rest joins
      | none => ofSourceless c s

def ofSources (c : Catalog) (options : PlannerOptions) (left : Option Plan)
    (parts : List (List Nat × List Expr)) : List FromItem → Except PlanError (Option Plan)
  | [] => .ok left
  | ⟨.table id, on⟩ :: rest => do
    let (columns, predicates) := parts.head?.getD ([], [])
    let input := leaf c (.tableGet id columns .read predicates)
    let plan ← applyOn c on (attach c options true left input)
    ofSources c options (some plan) parts.tail rest
  | ⟨.query select qualifier, on⟩ :: rest => do
    let inner ← ofSelect c options select
    let input := build c (.subQuery qualifier) [inner]
    let plan ← applyOn c on (attach c options false left input)
    ofSources c options (some plan) parts.tail rest

end

/-- A scan of all columns for writing, with an optional filter above it. The filter and the
extra expressions may read this table only. -/
def writeScan (c : Catalog) (table : TableId) (filter : Option Expr) (extra : List Expr) :
    Except PlanError Plan := do
  let schema := (c.table table).schema
  let scope : List ScopeEntry := [⟨schema.name, .columns schema⟩]
  let _ ← (filter.toList ++ extra).foldlM (fun needs e => e.resolve scope needs) [[]]
  let scan := leaf c (.tableGet table (List.range schema.width) .write [])
  match filter with
  | none => pure scan
  | some filter =>
    filter.checkCondition .filter
    pure (filtered c filter scan)

def assignable (column value : DataType) : Bool :=
  value = .undefined || value = column || (column = .float && value = .integer)

def checkAssignment (schema : TableSchema) (a : Assignment) : Except PlanError (Nat × Expr) :=
  match schema.columnIndex? a.field with
  | none => .error (.fieldNotFound schema.name a.field)
  | some i =>
    let type := (schema.columns[i]?.map (·.type)).getD .undefined
    if assignable type a.value.dataType then .ok (i, a.value)
    else .error (.typeMismatch (.assignment a.value.dataType schema.name a.field type))

/-- The plan of a statement. Session commands have none. -/
def ofStatement (c : Catalog) (options : PlannerOptions) : Statement → Except PlanError Plan
  | .compute exprs => .ok (leaf c (.compute exprs))
  | .select query => ofSelect c options query
  | .insert table records => .ok (leaf c (.insert table records))
  | .delete table filter => do
    let scan ← writeScan c table filter []
    pure (build c (.delete table) [scan])
  | .update table assignments filter => do
    let targets ← assignments.mapM (checkAssignment (c.table table).schema)
    let scan ← writeScan c table filter (assignments.map (·.value))
    pure (build c (.update table targets) [scan])
  | .explain statement => do
    let plan ← ofStatement c options statement
    pure (build c .explain [plan])
  | .createTable name columns => .ok (leaf c (.createTable name columns))
  | .renameTable table newName => .ok (leaf c (.rename table newName))
  | .showTables => .error (.unsupported (.command .showTables))
  | .begin => .error (.unsupported (.command .begin))
  | .commit => .error (.unsupported (.command .commit))
  | .rollback => .error (.unsupported (.command .rollback))

end Plan

end SnapshotSql
