import SnapshotSql.Operator.Bound
import SnapshotSql.Operator.Gathering
import SnapshotSql.Operator.Label
import SnapshotSql.Operator.Scan
import SnapshotSql.Transaction.Basic
/-! # Opening and advancing operators -/

namespace SnapshotSql

namespace Operator

/-- What is left of a failed opening: the operator as it was before. -/
def wrongInputs (op : Operator) (expected : Nat) (db : Database) : Turn α :=
  .fail (.internal (.wrongInputs op.kind expected op.inputs.length)) op db

def notOpen (op : Operator) (db : Database) : Turn α :=
  .fail (.internal (.notOpen op.kind)) op db

def foldRows (next : Operator → Database → Turn Step)
    (f : Database → σ → RowView → Step → Except ExecError σ) :
    Nat → σ → Operator → Database → Turn σ
  | 0, _, op, db => .fail (.internal .stepLimit) op db
  | n + 1, acc, op, db =>
    let t := next op db
    match t.answer with
    | .error e => .fail e t.op t.db
    | .ok .done => .ok acc t.op t.db
    | .ok step =>
      match t.op.current.bind fun view => f t.db acc view step with
      | .error e => .fail e t.op t.db
      | .ok acc => foldRows next f n acc t.op t.db

/-- The id of a row that is to be changed. Contested rows are refused. -/
def changeTarget (table : TableId) (input : OperatorKind) (db : Database) (view : RowView)
    (step : Step) : Except ExecError RowId :=
  match view.rid with
  | none => .error (.internal (.notStored input))
  | some rid =>
    if step = .contested then .error (.transaction (.conflict (db.catalog.tableName table) rid))
    else .ok rid

/-- A row's values with assignments applied, all of them computed from the old row. -/
def assign (view : RowView) : List (Nat × Expr) → List Value → Except ExecError (List Value)
  | [], values => .ok values
  | (i, e) :: rest, values => do
    let v ← view.eval e
    if i < values.length then assign view rest (values.set i v)
    else throw (.internal (.updateTarget i))

def collectTarget (table : TableId) (input : OperatorKind) (db : Database)
    (rids : Array RowId) (view : RowView) (step : Step) : Except ExecError (Array RowId) := do
  let rid ← changeTarget table input db view step
  pure (rids.push rid)

def collectChange (table : TableId) (assignments : List (Nat × Expr)) (input : OperatorKind)
    (db : Database) (changes : Array (RowId × List Value)) (view : RowView) (step : Step) :
    Except ExecError (Array (RowId × List Value)) := do
  let rid ← changeTarget table input db view step
  let values ← view.values
  let values ← assign view assignments values
  pure (changes.push (rid, values))

def collectRow (_ : Database) (rows : Array (Row × Step)) (view : RowView) (step : Step) :
    Except ExecError (Array (Row × Step)) := do
  let row ← view.copy
  pure (rows.push (row, step))

def collectKeyed (keys : List SortKey) (_ : Database) (rows : Array KeyedRow) (view : RowView)
    (step : Step) : Except ExecError (Array KeyedRow) := do
  let row ← KeyedRow.ofView keys view step
  pure (rows.push row)

def deleteRows (tx : TxHandle) (table : TableId) : List RowId → Action TxError Unit
  | [] => pure ()
  | rid :: rids => do
    tx.deleteRow table rid
    deleteRows tx table rids

def updateRows (tx : TxHandle) (table : TableId) :
    List (RowId × List Value) → Action TxError Unit
  | [] => pure ()
  | (rid, values) :: changes => do
    let _ ← tx.updateRow table rid values
    updateRows tx table changes

def insertRows (tx : TxHandle) (table : TableId) : List (List Value) → Action TxError Unit
  | [] => pure ()
  | values :: records => do
    let _ ← tx.insertRow table values
    insertRows tx table records

/-- Read every row of an input while opening its parent, then go on with what was read. -/
def afterReading (t : Turn Unit) (read : Operator → Database → Turn σ)
    (parent : Operator → Operator) (go : σ → Operator → Database → Turn Unit) : Turn Unit :=
  match t.answer with
  | .error e => .fail e (parent t.op) t.db
  | .ok () =>
    let t := read t.op t.db
    match t.answer with
    | .error e => .fail e (parent t.op) t.db
    | .ok rows => go rows t.op t.db

def emit (e : Emission) (make : Unit → Except ExecError Row) (parent : Emission → Operator)
    (db : Database) : Turn Step :=
  if e.emitted then .ok .done (parent { e with current := none }) db
  else match make () with
    | .error error => .fail error (parent e) db
    | .ok row => .ok .row (parent { emitted := true, current := some row }) db

def replay (b : Buffer) (parent : Buffer → Operator) (db : Database) : Turn Step :=
  let (step, b) := b.next
  .ok step (parent b) db

def computedRow (env : RowView) (exprs : List Expr) : Except ExecError Row := do
  let values ← env.evalAll exprs
  pure { names := exprs.map fun e => .plain e.render, values }

def planCell : String := "Query Plan"

def explainRow (c : Catalog) (input : Operator) : Row :=
  { names := [.plain planCell],
    values := [.text (String.intercalate "\n" (input.explainLines c))] }

mutual

/-- Bind an operator to a transaction, in the given number of steps. -/
def openIn (n : Nat) (tx : TxHandle) (op : Operator) (db : Database) : Turn Unit :=
  match n with
  | 0 => .fail (.internal .stepLimit) op db
  | n + 1 =>
    match op with
    | .tableScan s =>
      match tx.readSnapshot.run db with
      | .ok snapshot db => .ok () (.tableScan (s.rewind tx snapshot)) db
      | .error e db => .fail (.transaction e) op db
    | .predicate condition policy [input] =>
      (openIn n tx input db).under fun input => .predicate condition policy [input]
    | .predicate .. => op.wrongInputs 1 db
    | .project items [] _ => .ok () (.project items [] (some StringList.singleEmptyRow)) db
    | .project items [input] literal =>
      (openIn n tx input db).under fun input => .project items [input] literal
    | .project .. => op.wrongInputs 1 db
    | .compute exprs _ => .ok () (.compute exprs {}) db
    | .join left right state =>
      let t := openIn n tx left db
      match t.answer with
      | .error e => .fail e (.join t.op right state) t.db
      | .ok () => .ok () (.join t.op right { tx := some tx }) t.db
    | .insert table records _ =>
      .ofAction (insertRows tx table records) db op fun _ =>
        .insert table records (some records.length)
    | .delete table input affected =>
      let t := openIn n tx input db
      match t.answer with
      | .error e => .fail e (.delete table t.op affected) t.db
      | .ok () =>
        let kind := input.kind
        let t := foldRows (nextIn n .empty) (collectTarget table kind) n #[] t.op t.db
        let before := .delete table t.op.close affected
        match t.answer with
        | .error e => .fail e before t.db
        | .ok rids =>
          .ofAction (deleteRows tx table rids.toList) t.db before fun _ =>
            .delete table t.op.close (some rids.size)
    | .update table assignments input affected =>
      let t := openIn n tx input db
      match t.answer with
      | .error e => .fail e (.update table assignments t.op affected) t.db
      | .ok () =>
        let kind := input.kind
        let t := foldRows (nextIn n .empty) (collectChange table assignments kind) n #[] t.op t.db
        let before := .update table assignments t.op.close affected
        match t.answer with
        | .error e => .fail e before t.db
        | .ok changes =>
          .ofAction (updateRows tx table changes.toList) t.db before fun _ =>
            .update table assignments t.op.close (some changes.size)
    | .explain input _ => .ok () (.explain input {}) db
    | .createTable name columns =>
      match db.catalog.create name columns with
      | .error e => .fail (.storage e) op db
      | .ok (_, catalog) => .ok () op { db with catalog }
    | .rename table newName =>
      match db.catalog.rename (db.catalog.tableName table) newName with
      | .error e => .fail (.storage e) op db
      | .ok catalog => .ok () op { db with catalog }
    | .aggregate groupBy calls input buffer =>
      afterReading (openIn n tx input db)
        (foldRows (nextIn n .empty) (fun _ => Group.feedGroups groupBy calls) n #[])
        (fun input => .aggregate groupBy calls input buffer)
        fun groups input =>
          .ok () (.aggregate groupBy calls input { rows := Group.outputs groupBy calls groups })
    | .sort keys input buffer =>
      afterReading (openIn n tx input db)
        (foldRows (nextIn n .empty) (collectKeyed keys) n #[])
        (fun input => .sort keys input buffer)
        fun rows input =>
          match KeyedRow.sorted keys rows.toList with
          | .ok rows => .ok () (.sort keys input { rows })
          | .error e => .fail e (.sort keys input buffer)
    | .subQuery qualifier input => (openIn n tx input db).under (.subQuery qualifier)
    | .cached input buffer owner =>
      let buffer := buffer.rewind
      if owner = some tx then .ok () (.cached input buffer owner) db
      else
        let t := openIn n tx input db
        match t.answer with
        | .error e => .fail e (.cached t.op buffer owner) t.db
        | .ok () =>
          let t := foldRows (nextIn n .empty) collectRow n #[] t.op t.db
          match t.answer with
          | .error e => .fail e (.cached t.op.close buffer owner) t.db
          | .ok rows => .ok () (.cached t.op.close { rows } (some tx)) t.db
    | .stringList s => .ok () (.stringList { s with buffer := s.buffer.rewind }) db

/-- Advance an operator to its next row, in the given number of steps. The row of the enclosing
scope is `env`. -/
def nextIn (n : Nat) (env : RowView) (op : Operator) (db : Database) : Turn Step :=
  match n with
  | 0 => .fail (.internal .stepLimit) op db
  | n + 1 =>
    match op with
    | .tableScan s => s.next env db
    | .predicate _ _ [] => op.notOpen db
    | .predicate condition policy (input :: rest) =>
      let t := nextIn n env input db
      let op := .predicate condition policy (t.op :: rest)
      match t.answer with
      | .error e => .fail e op t.db
      | .ok .done => .ok .done op t.db
      | .ok step =>
        match t.op.current.bind fun view => (RowView.joined view env).holds condition with
        | .error e => .fail e op t.db
        | .ok matched =>
          if matched || TableScan.surfaces policy step then .ok step op t.db
          else nextIn n env op t.db
    | .project items (input :: rest) literal =>
      (nextIn n env input db).under fun input => .project items (input :: rest) literal
    | .project items [] (some literal) =>
      replay literal.buffer (fun buffer => .project items [] (some { literal with buffer })) db
    | .project _ [] none => op.notOpen db
    | .compute exprs e => emit e (fun _ => computedRow env exprs) (.compute exprs) db
    | .join left right state =>
      match state.tx, state.leftStep with
      | none, _ => op.notOpen db
      | some tx, none =>
        let t := nextIn n env left db
        match t.answer with
        | .error e => .fail e (.join t.op right state) t.db
        | .ok .done => .ok .done (.join t.op right state) t.db
        | .ok step =>
          let u := openIn n tx right.close t.db
          match u.answer with
          | .error e => .fail e (.join t.op u.op state) u.db
          | .ok () => nextIn n env (.join t.op u.op { state with leftStep := some step }) u.db
      | some _, some leftStep =>
        let t := nextIn n env right db
        match t.answer with
        | .error e => .fail e (.join left t.op state) t.db
        | .ok .done => nextIn n env (.join left t.op { state with leftStep := none }) t.db
        | .ok step => .ok (leftStep.combine step) (.join left t.op state) t.db
    | .insert .. => .ok .done op db
    | .delete .. => .ok .done op db
    | .update .. => .ok .done op db
    | .explain input e => emit e (fun _ => .ok (explainRow db.catalog input)) (.explain input) db
    | .createTable .. => .ok .done op db
    | .rename .. => .ok .done op db
    | .aggregate groupBy calls input buffer => replay buffer (.aggregate groupBy calls input) db
    | .sort keys input buffer => replay buffer (.sort keys input) db
    | .subQuery qualifier input => (nextIn n env input db).under (.subQuery qualifier)
    | .cached input buffer owner => replay buffer (.cached input · owner) db
    | .stringList s => replay s.buffer (fun buffer => .stringList { s with buffer }) db

end

def openUnder (tx : TxHandle) (op : Operator) (db : Database) : Turn Unit :=
  openIn (op.steps db.catalog) tx op db

def next (env : RowView) (op : Operator) (db : Database) : Turn Step :=
  nextIn (op.steps db.catalog) env op db

end Operator

end SnapshotSql
