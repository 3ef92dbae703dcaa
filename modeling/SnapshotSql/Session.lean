import SnapshotSql.Json.Basic
import SnapshotSql.Operator.Iterate
import SnapshotSql.Operator.OfPlan
import SnapshotSql.Plan.OfStatement
/-! # Sessions -/

namespace SnapshotSql

/-! ## Result sets -/

structure ResultSet where
  columns : List String
  rows : List (List Value) := []
  deriving DecidableEq, Inhabited

namespace ResultSet

def cell? (rs : ResultSet) (row : Nat) (column : String) : Option Value := do
  let i ← rs.columns.findIdx? (· == column)
  let cells ← rs.rows[row]?
  cells[i]?

/-- A row as an object. Cells and columns without a partner are dropped, and of columns of one
name the last counts. -/
def rowJson (columns : List String) (row : List Value) : Json :=
  .object ((columns.zip row).foldl (fun members (name, v) => Json.setMember name v.toJson members)
    [])

def toJson (rs : ResultSet) : Json := .array (rs.rows.map (rowJson rs.columns))

end ResultSet

inductive QueryResult where
  | rows (set : ResultSet)
  | modified (count : Nat)
  | success (message : String)
  | transaction (message : String)

/-! ## Sessions -/

structure SessionOptions where
  isolation : Isolation := .readCommitted
  autoCommit : Bool := true
  policy : ConflictPolicy := .absorbUnmatched
  cacheInner : Bool := true
  deriving DecidableEq, Inhabited

def SessionOptions.planner (o : SessionOptions) : PlannerOptions :=
  { cacheInner := o.cacheInner, policy := o.policy }

inductive TxOrigin where
  /-- By BEGIN. -/
  | explicit
  /-- By a statement that does not commit automatically. -/
  | implicit
  deriving DecidableEq

structure Session where
  options : SessionOptions := {}
  held : Option (TxHandle × TxOrigin) := none
  deriving DecidableEq

structure Outcome where
  result : Except ExecError QueryResult
  session : Session
  db : Database

namespace Session

def inTransaction (s : Session) : Bool := s.held.isSome

def tablesColumn : String := "Tables"

def plan (s : Session) (c : Catalog) (stmt : Statement) : Except ExecError Operator :=
  match Plan.ofStatement c s.options.planner stmt with
  | .error e => .error (.plan e)
  | .ok plan => (plan.lower c s.options.policy).mapError .plan

def columnNames : Statement → List String
  | .select query => query.items.map fun item => item.cellName.render
  | .compute exprs => exprs.map Expr.render
  | .explain _ => [Operator.planCell]
  | .showTables => [tablesColumn]
  | _ => []

/-- Collect the values of a row that reaches the client. A contested row is a conflict on the
tables of the statement. -/
def collectValues (stmt : Statement) (db : Database) (rows : Array (List Value)) (view : RowView)
    (step : Step) : Except ExecError (Array (List Value)) := do
  let row ← view.copy
  if step = .contested then
    let tables := stmt.tableNames db.catalog
    match row.rid with
    | some rid => throw (.transaction (.conflict (String.intercalate "," tables) rid))
    | none => throw (.internal (.derivedConflict tables))
  else pure (rows.push row.values)

def rowsResult (stmt : Statement) (t : Turn (Array (List Value))) : Turn QueryResult :=
  match t.answer with
  | .error e => .fail e t.op t.db
  | .ok rows => .ok (.rows { columns := columnNames stmt, rows := rows.toList }) t.op t.db

def collect (stmt : Statement) (op : Operator) (db : Database) : Turn QueryResult :=
  match stmt with
  | .insert .. | .delete .. | .update .. => .ok (.modified (op.affected.getD 0)) op db
  | .createTable name _ => .ok (.success ("Created table '" ++ name ++ "'")) op db
  | .renameTable _ newName => .ok (.success ("Renamed table to '" ++ newName ++ "'")) op db
  | stmt =>
    let rounds := op.rowBound db.catalog + 1 + Operator.spareSteps
    rowsResult stmt (Operator.foldRows (Operator.next .empty) (collectValues stmt) rounds #[] op db)

def conclude (stmt : Statement) (t : Turn Unit) : Turn QueryResult :=
  match t.answer with
  | .error e => .fail e t.op t.db
  | .ok () => (collect stmt t.op t.db).under (·.close)

def drive (stmt : Statement) (op : Operator) (tx : TxHandle) (db : Database) : Turn QueryResult :=
  conclude stmt (op.openUnder tx db)

def statementTx (s : Session) (db : Database) : (TxHandle × Bool) × Session × Database :=
  match s.held with
  | some (tx, _) => ((tx, false), s, db)
  | none =>
    let (tx, db) := db.begin s.options.isolation
    if s.options.autoCommit then ((tx, true), s, db)
    else ((tx, false), { s with held := some (tx, .implicit) }, db)

/-- Run an operator tree for a statement. A transaction that ends with the statement is committed
if it succeeds and rolled back if it fails. -/
def run (s : Session) (stmt : Statement) (op : Operator) (db : Database) : Outcome :=
  let ((tx, owned), s, db) := s.statementTx db
  let t := drive stmt op tx db
  if !owned then ⟨t.answer, s, t.db⟩
  else match t.answer with
    | .ok result =>
      match tx.commit.run t.db with
      | .ok _ db => ⟨.ok result, s, db⟩
      | .error e db => ⟨.error (.transaction e), s, db⟩
    | .error e =>
      match tx.rollback.run t.db with
      | .ok _ db => ⟨.error e, s, db⟩
      | .error _ db => ⟨.error e, s, db⟩

/-- BEGIN. An implicit transaction is taken over with its pending work. -/
def begin (s : Session) (db : Database) : Outcome :=
  match s.held with
  | some (_, .explicit) => ⟨.error (.internal .alreadyInTransaction), s, db⟩
  | some (tx, .implicit) =>
    ⟨.ok (.transaction "BEGIN"), { s with held := some (tx, .explicit) }, db⟩
  | none =>
    let (tx, db) := db.begin s.options.isolation
    ⟨.ok (.transaction "BEGIN"), { s with held := some (tx, .explicit) }, db⟩

/-- COMMIT or ROLLBACK. The session lets go of its transaction in any case. -/
def finish (s : Session) (how : Ending) (message : String) (db : Database) : Outcome :=
  match s.held with
  | none => ⟨.error .noTransaction, s, db⟩
  | some (tx, _) =>
    let s := { s with held := none }
    match (tx.finish how).run db with
    | .ok _ db => ⟨.ok (.transaction message), s, db⟩
    | .error e db => ⟨.error (.transaction e), s, db⟩

def execute (s : Session) (stmt : Statement) (db : Database) : Outcome :=
  match stmt with
  | .begin => s.begin db
  | .commit => s.finish .committed "COMMIT" db
  | .rollback => s.finish .aborted "ROLLBACK" db
  | .showTables =>
    s.run stmt (.stringList (StringList.create tablesColumn db.catalog.names)) db
  | stmt =>
    match s.plan db.catalog stmt with
    | .error e => ⟨.error e, s, db⟩
    | .ok op => s.run stmt op db

end Session

end SnapshotSql
