import SnapshotSql.Operator.Basic
/-! # Scans -/

namespace SnapshotSql

/-! ## Turns -/

/-- What a call on an operator leaves behind. -/
structure Turn (α : Type) where
  answer : Except ExecError α
  op : Operator
  db : Database

namespace Turn

def ok (a : α) (op : Operator) (db : Database) : Turn α := ⟨.ok a, op, db⟩

def fail (e : ExecError) (op : Operator) (db : Database) : Turn α := ⟨.error e, op, db⟩

def under (t : Turn α) (parent : Operator → Operator) : Turn α := { t with op := parent t.op }

/-- Run a transaction's action, keeping the operator `before` if it fails. -/
def ofAction (action : Action TxError α) (db : Database) (before : Operator)
    (after : α → Operator) : Turn α :=
  match action.run db with
  | .ok a db => ok a (after a) db
  | .error e db => fail (.transaction e) before db

end Turn

/-! ## Scanning a table -/

namespace RowView

def holdsAll (view : RowView) : List Expr → Except ExecError Bool
  | [] => .ok true
  | e :: es => do
    if ← view.holds e then holdsAll view es else pure false

end RowView

namespace TableScan

def rewind (s : TableScan) (tx : TxHandle) (snapshot : Snapshot) : TableScan :=
  { s with opened := some (tx, snapshot), cursor := 0, current := none }

def accepts (s : TableScan) (env : RowView) (v : Version) : Except ExecError Bool :=
  (RowView.joined (s.view v) env).holdsAll s.predicates

/-- Whether a row is passed on although it fails the predicates. -/
def surfaces (policy : ConflictPolicy) (step : Step) : Bool :=
  step = .contested && policy = .surfaceAll

def stepOf : Visibility → Step
  | .contested => .contested
  | _ => .row

/-- Stop on the first version from the cursor on that is to be passed on, looking at `n` versions
at most. -/
def seek (tx : TxHandle) (snapshot : Snapshot) (env : RowView) (versions : Array Version) :
    Nat → TableScan → Database → Turn Step
  | 0, s, db => .ok .done (.tableScan { s with current := none }) db
  | n + 1, s, db =>
    match versions[s.cursor]? with
    | none => .ok .done (.tableScan { s with current := none }) db
    | some v =>
      let s := { s with cursor := s.cursor + 1 }
      match (tx.visibility snapshot s.access v).run db with
      | .error e db => .fail (.transaction e) (.tableScan s) db
      | .ok .invisible db => seek tx snapshot env versions n s db
      | .ok seen db =>
        match s.accepts env v with
        | .error e => .fail e (.tableScan s) db
        | .ok accepted =>
          if accepted || surfaces s.policy (stepOf seen) then
            .ok (stepOf seen) (.tableScan { s with current := some v }) db
          else seek tx snapshot env versions n s db

def next (env : RowView) (s : TableScan) (db : Database) : Turn Step :=
  match s.opened with
  | none => .fail (.internal (.notOpen .tableScan)) (.tableScan s) db
  | some (tx, snapshot) =>
    let versions := (db.catalog.table s.table).versions
    seek tx snapshot env versions (versions.size - s.cursor) s db

end TableScan

end SnapshotSql
