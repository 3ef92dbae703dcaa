import SnapshotSql.Proofs.Query.Completed
import SnapshotSql.Proofs.Query.Execution
import SnapshotSql.Proofs.Transaction.Operation
import SnapshotSql.Session
/-! # Driving statements -/

namespace SnapshotSql

open QueryTree

variable {t : TxHandle} {db : Database} {q : QueryTree}

namespace QueryTree

/-- What the rows of a query come to when they are taken in one after the other. -/
def readAll {σ : Type} (R : Reader) (q : QueryTree)
    (f : σ → RowView → Step → Except ExecError σ) (acc : σ) : Except ExecError σ := do
  let s ← q.stream R
  s.fold f acc

/-- Whether a scan is opened while a query is opened and its rows are taken in. -/
def readsTouch {σ : Type} (R : Reader) (q : QueryTree)
    (f : σ → RowView → Step → Except ExecError σ) (acc : σ) : Bool :=
  q.touches R || Stream.readTouches f acc (q.stream R)

theorem toOption_readAll {σ : Type} (q : QueryTree) (f : σ → RowView → Step → Except ExecError σ)
    (acc : σ) (R : Reader) : (q.readAll R f acc).toOption = (q.completed R).bind fun rs =>
      (rs.foldlM (fun acc r => f acc r.1 (.of r.2)) acc).toOption := by
  rw [readAll, completed]
  cases q.stream R with
  | error e => rfl
  | ok stream => exact Stream.complete_fold f acc stream

end QueryTree

/-- Opening a query fails like reading it, and otherwise its rows can be taken in, each with enough
steps. -/
private theorem foldRows_query {σ : Type} {f : Database → σ → RowView → Step → Except ExecError σ}
    {next : Operator → Database → Turn Step} {rounds : Nat} {turn : Turn Unit} (acc : σ)
    (hopens : Opens t db q false turn)
    (hf : ∀ started, f (db.phase t started) = f db)
    (hnext : ∀ op started, q.Runs (db.reader t) t started op → ∃ k ≥ q.fuel (db.reader t),
      next op (db.phase t started) = op.nextIn k .empty (db.phase t started))
    (hrounds : q.Runs (db.reader t) t (q.touches (db.reader t)) turn.op →
      q.size (db.reader t) < rounds) :
    (∃ e, turn.answer = .error e ∧ q.readAll (db.reader t) (f db) acc = .error e ∧
      turn.db = db.phase t (q.readsTouch (db.reader t) (f db) acc)) ∨
    turn.answer = .ok () ∧ ∃ op', Operator.foldRows next f rounds acc turn.op turn.db =
      ⟨q.readAll (db.reader t) (f db) acc, op',
        db.phase t (q.readsTouch (db.reader t) (f db) acc)⟩ := by
  obtain ⟨hdb, hruns, hanswer⟩ := hopens
  rw [Bool.false_or] at hdb hruns
  rw [readAll, readsTouch]
  cases hstream : q.stream (db.reader t) with
  | error e =>
    rw [hstream] at hanswer
    rw [Stream.readTouches, Bool.or_false]
    exact .inl ⟨e, hanswer, rfl, hdb⟩
  | ok s =>
    rw [hstream] at hanswer
    have hlen := Nat.lt_of_le_of_lt (length_stream _ q hstream) (hrounds hruns)
    obtain ⟨op', _, hfold⟩ := foldRows_delivers hnext hf rounds acc hlen hanswer.2 hruns
    rw [← hdb, Bool.false_or] at hfold
    exact .inr ⟨hanswer.1, op', hfold⟩

/-- What is left of a turn once its operators are dropped. -/
def Turn.outcome {α : Type} (turn : Turn α) : Except ExecError α × Database :=
  (turn.answer, turn.db)

theorem Turn.answer_of_outcome {α : Type} {turn : Turn α} {answer : Except ExecError α}
    {db' : Database} (h : turn.outcome = (answer, db')) : turn.answer = answer :=
  congrArg Prod.fst h

theorem Turn.db_of_outcome {α : Type} {turn : Turn α} {answer : Except ExecError α}
    {db' : Database} (h : turn.outcome = (answer, db')) : turn.db = db' :=
  congrArg Prod.snd h

/-- Take in the rows of a query, and go on from the database in which they have been read. -/
def QueryTree.readThen {σ : Type} (t : TxHandle) (db : Database) (q : QueryTree)
    (f : σ → RowView → Step → Except ExecError σ) (acc : σ)
    (go : σ → Database → Except ExecError QueryResult × Database) :
    Except ExecError QueryResult × Database :=
  match q.readAll (db.reader t) f acc with
  | .error e => (.error e, db.phase t (q.readsTouch (db.reader t) f acc))
  | .ok a => go a (db.phase t (q.readsTouch (db.reader t) f acc))

def modifying (count : Nat) (action : Action TxError Unit) (db : Database) :
    Except ExecError QueryResult × Database :=
  match action.run db with
  | .ok _ db => (.ok (.modified count), db)
  | .error e db => (.error (.transaction e), db)

namespace Session

/-! ## Queries -/

theorem conclude_error {stmt : Statement} {turn : Turn Unit} {e : ExecError}
    (h : turn.answer = .error e) : (conclude stmt turn).outcome = (.error e, turn.db) := by
  rw [conclude, h]
  rfl

theorem conclude_ok {stmt : Statement} {turn : Turn Unit} (h : turn.answer = .ok ()) :
    (conclude stmt turn).outcome = (collect stmt turn.op turn.db).outcome := by
  rw [conclude, h]
  rfl

private theorem outcome_rowsResult (stmt : Statement) (turn : Turn (Array (List Value))) :
    (rowsResult stmt turn).outcome =
      (turn.answer.map fun rows => .rows { columns := columnNames stmt, rows := rows.toList },
        turn.db) := by
  rw [rowsResult]
  cases turn.answer with
  | error e => rfl
  | ok rows => rfl

private theorem collect_select (query : Select) (op : Operator) (db : Database) :
    collect (.select query) op db = rowsResult (.select query)
      (Operator.foldRows (Operator.next .empty) (collectValues (.select query))
        (op.rowBound db.catalog + 1 + Operator.spareSteps) #[] op db) := by
  simp only [collect]

theorem drive_select (query : Select) (hq : q.Fresh) (h : db.Active t) :
    (drive (.select query) q.operator t db).outcome =
      q.readThen t db (collectValues (.select query) db) #[] fun rows db =>
        (.ok (.rows { columns := columnNames (.select query), rows := rows.toList }), db) := by
  have hopens := opens_openUnder hq h
  rw [drive]
  generalize q.operator.openUnder t db = turn at hopens ⊢
  have hf : ∀ started, collectValues (.select query) (db.phase t started) =
      collectValues (.select query) db := by
    intro started
    unfold collectValues
    rw [Database.phase_catalog]
  have hnext : ∀ (op : Operator) (started : Bool), q.Runs (db.reader t) t started op →
      ∃ k ≥ q.fuel (db.reader t), Operator.next .empty op (db.phase t started) =
        op.nextIn k .empty (db.phase t started) :=
    fun op started hruns => ⟨_, fuel_le_steps hruns, rfl⟩
  have hrounds : q.Runs (db.reader t) t (q.touches (db.reader t)) turn.op →
      q.size (db.reader t) < turn.op.rowBound turn.db.catalog + 1 + Operator.spareSteps := by
    intro hruns
    have hbound := (bounds_le hruns).1
    rw [hopens.1]
    exact Nat.lt_of_lt_of_le (Nat.lt_succ_of_le hbound) (Nat.le_add_right _ _)
  rcases foldRows_query #[] hopens hf hnext hrounds with ⟨e, herror, hread, hdb⟩ | ⟨hok, op', hfold⟩
  · rw [conclude_error herror, hdb, readThen, hread]
  · rw [conclude_ok hok, collect_select, hfold, outcome_rowsResult, readThen]
    cases q.readAll (db.reader t) (collectValues (.select query) db) #[] with
    | error e => rfl
    | ok rows => rfl

/-- The answer to a query is made of what is read, and the transaction starts if a scan is opened. -/
theorem drive_select_eq (query : Select) (hq : q.Fresh) (h : db.Active t) :
    (drive (.select query) q.operator t db).answer =
      (q.readAll (db.reader t) (collectValues (.select query) db) #[]).map (fun rows =>
        .rows { columns := columnNames (.select query), rows := rows.toList }) ∧
    (drive (.select query) q.operator t db).db =
      db.phase t (q.readsTouch (db.reader t) (collectValues (.select query) db) #[]) := by
  have hdrive := drive_select query hq h
  rw [QueryTree.readThen] at hdrive
  cases hall : q.readAll (db.reader t) (collectValues (.select query) db) #[] with
  | error e =>
    rw [hall] at hdrive
    exact ⟨Turn.answer_of_outcome hdrive, Turn.db_of_outcome hdrive⟩
  | ok rows =>
    rw [hall] at hdrive
    exact ⟨Turn.answer_of_outcome hdrive, Turn.db_of_outcome hdrive⟩

theorem answer_drive_select (query : Select) (hq : q.Fresh) (h : db.Active t) :
    (drive (.select query) q.operator t db).answer.toOption =
      ((q.completed (db.reader t)).bind fun rs =>
        (rs.foldlM (fun rows r => collectValues (.select query) db rows r.1 (.of r.2)) #[]).toOption).map
        fun rows => .rows { columns := columnNames (.select query), rows := rows.toList } := by
  rw [← QueryTree.toOption_readAll, (drive_select_eq query hq h).1]
  cases q.readAll (db.reader t) (collectValues (.select query) db) #[] <;> rfl

/-- What an answer takes from a row: its values, if all of them can be read, and whether it is contested. -/
def answerCells (r : RowView × Bool) : Option (List Value) × Bool :=
  (r.1.copy.toOption.map (·.values), r.2)

private theorem collectValues_eq_ok {stmt : Statement} {rows rows' : Array (List Value)}
    {r : RowView × Bool} : collectValues stmt db rows r.1 (.of r.2) = .ok rows' ↔
      ∃ values, answerCells r = (some values, false) ∧ rows' = rows.push values := by
  obtain ⟨v, contested⟩ := r
  rw [collectValues, answerCells]
  cases v.copy with
  | error e => simp [bind, Except.bind, Except.toOption]
  | ok row =>
    cases contested with
    | false => simp [bind, Except.bind, pure, Except.pure, Except.toOption, Step.of, eq_comm]
    | true => cases hrid : row.rid <;> simp [bind, Except.bind, Except.toOption, Step.of, hrid]

/-- An answer is given if the values of all rows can be read and no row is contested. -/
theorem foldlM_collectValues {stmt : Statement} {rs : List (RowView × Bool)} {rows : Array (List Value)} :
    rs.foldlM (fun rows r => collectValues stmt db rows r.1 (.of r.2)) #[] = .ok rows ↔
      rs.map answerCells = rows.toList.map fun values => (some values, false) := by
  induction rs using List.reverseRecOn generalizing rows with
  | nil =>
    constructor
    · rintro ⟨⟩
      rfl
    · intro h
      obtain rfl : rows = #[] := Array.toList_eq_nil_iff.mp (List.map_eq_nil_iff.mp h.symm)
      rfl
  | append_singleton rs r ih =>
    rw [List.foldlM_append, bind_eq_ok]
    simp only [ih, List.foldlM_cons, List.foldlM_nil, bind_eq_ok, collectValues_eq_ok]
    constructor
    · rintro ⟨before, hbefore, after, ⟨values, hvalues, rfl⟩, hafter⟩
      cases hafter
      simp [hbefore, hvalues]
    · intro h
      rw [List.map_append, List.map_singleton] at h
      obtain ⟨before, last, hrows, hbefore, hlast⟩ := List.map_eq_append_iff.mp h.symm
      obtain ⟨values, rfl, hvalues⟩ := List.map_eq_singleton_iff.mp hlast
      refine ⟨before.toArray, hbefore.symm, rows, ⟨values, hvalues.symm, ?_⟩, rfl⟩
      rw [← Array.toList_inj, hrows, Array.toList_push]

theorem steps_succ (c : Catalog) (op : Operator) : ∃ n, op.steps c = n + 1 := by
  have hpos : 0 < Operator.spareSteps := by decide
  refine ⟨op.stepBound c + (Operator.spareSteps - 1), ?_⟩
  rw [Operator.steps]
  omega

private theorem outcome_emission (stmt : Statement) {kind : OperatorKind} {make : Except ExecError Row}
    (parent : Emission → Operator) (hcurrent : ∀ e, (parent e).current = Operator.ownedRow kind e.current)
    (hnext : ∀ e, Operator.next .empty (parent e) db = Operator.emit e (fun _ => make) parent db)
    (rounds : Nat) :
    (rowsResult stmt (Operator.foldRows (Operator.next .empty) (collectValues stmt) (rounds + 2) #[]
      (parent {}) db)).outcome = (do
        let row ← make
        let copy ← (RowView.owned row).copy
        pure (.rows { columns := columnNames stmt, rows := [copy.values] }), db) := by
  -- The only row is made in the first round, and the second one finds no more.
  have hend : ∀ (row : Row) (rows : Array (List Value)),
      Operator.foldRows (Operator.next .empty) (collectValues stmt) (rounds + 1) rows
        (parent { emitted := true, current := some row }) db =
          .ok rows (parent { emitted := true, current := none }) db := by
    intro row rows
    rw [Operator.foldRows, hnext]
    rfl
  rw [outcome_rowsResult, Operator.foldRows, hnext]
  cases make with
  | error e => rfl
  | ok row =>
    have hcollect : ((parent { emitted := true, current := some row }).current.bind
        fun view => collectValues stmt db #[] view .row) =
          (RowView.owned row).copy.map fun copy => #[copy.values] := by
      rw [hcurrent]
      show collectValues stmt db #[] (.owned row) .row = _
      rw [collectValues]
      cases (RowView.owned row).copy <;> rfl
    simp only [Operator.emit, Bool.false_eq_true, if_false, Turn.ok, hcollect]
    cases hcopy : (RowView.owned row).copy with
    | error e =>
      simp only [bind, Except.bind, hcopy]
      rfl
    | ok copy =>
      rw [Except.map]
      dsimp only
      rw [hend]
      simp only [bind, Except.bind, hcopy]
      rfl

private theorem rounds_emission : 1 + 1 + Operator.spareSteps = Operator.spareSteps + 2 := by
  rw [Nat.add_comm]

def computed (exprs : List Expr) : Except ExecError QueryResult := do
  let row ← Operator.computedRow .empty exprs
  let copy ← (RowView.owned row).copy
  pure (.rows { columns := columnNames (.compute exprs), rows := [copy.values] })

private theorem next_compute (exprs : List Expr) (e : Emission) (db : Database) :
    Operator.next .empty (.compute exprs e) db = Operator.emit e
      (fun _ => Operator.computedRow .empty exprs) (.compute exprs) db := by
  obtain ⟨n, hn⟩ := steps_succ db.catalog (.compute exprs e)
  rw [Operator.next, hn, Operator.nextIn]

theorem drive_compute (exprs : List Expr) :
    (drive (.compute exprs) (.compute exprs {}) t db).outcome = (computed exprs, db) := by
  obtain ⟨n, hn⟩ := steps_succ db.catalog (.compute exprs {})
  rw [drive, Operator.openUnder, hn, Operator.openIn, conclude_ok rfl]
  simp only [Turn.ok, collect, Operator.rowBound]
  rw [rounds_emission]
  exact outcome_emission _ (.compute exprs) (fun _ => rfl)
    (fun e => next_compute exprs e db) Operator.spareSteps

def explained (c : Catalog) (input : Operator) : QueryResult :=
  .rows { columns := [Operator.planCell],
          rows := [[.text (String.intercalate "\n" (input.explainLines c))]] }

private theorem next_explain (input : Operator) (e : Emission) (db : Database) :
    Operator.next .empty (.explain input e) db = Operator.emit e
      (fun _ => .ok (Operator.explainRow db.catalog input)) (.explain input) db := by
  obtain ⟨n, hn⟩ := steps_succ db.catalog (.explain input e)
  rw [Operator.next, hn, Operator.nextIn]

theorem drive_explain (stmt : Statement) (input : Operator) :
    (drive (.explain stmt) (.explain input {}) t db).outcome = (.ok (explained db.catalog input), db) := by
  obtain ⟨n, hn⟩ := steps_succ db.catalog (.explain input {})
  have hcopy : (RowView.owned (Operator.explainRow db.catalog input)).copy =
      .ok (Operator.explainRow db.catalog input) := RowView.copy_owned rfl
  have hrow := outcome_emission (.explain stmt) (.explain input) (fun _ => rfl)
    (fun e => next_explain input e db) Operator.spareSteps
  rw [drive, Operator.openUnder, hn, Operator.openIn, conclude_ok rfl]
  simp only [Turn.ok, collect, Operator.rowBound]
  rw [rounds_emission, hrow]
  simp only [bind, Except.bind, hcopy]
  rfl

theorem drive_insert (table : TableId) (records : List (List Value)) :
    (drive (.insert table records) (.insert table records none) t db).outcome =
      modifying records.length (Operator.insertRows t table records) db := by
  obtain ⟨n, hn⟩ := steps_succ db.catalog (.insert table records none)
  rw [drive, Operator.openUnder, hn, Operator.openIn, modifying, Turn.ofAction]
  cases (Operator.insertRows t table records).run db with
  | ok _ db => rfl
  | error e db => rfl

private theorem steps_of_pass (op : Operator) (hq : q.Fresh) (t : TxHandle)
    (hop : op.stepBound db.catalog =
      Operator.passBound (q.operator.rowBound db.catalog) (q.operator.stepBound db.catalog)) :
    ∃ n, op.steps db.catalog = n + 1 ∧ q.fuel (db.reader t) ≤ n ∧ q.size (db.reader t) < n := by
  obtain ⟨hsize, hfuel⟩ := bounds_le (runs_operator (db.reader t) t false hq)
  have hcatalog : (db.phase t false).catalog = db.catalog := rfl
  rw [hcatalog] at hsize hfuel
  refine ⟨op.stepBound db.catalog + Operator.spareSteps - 1, ?_⟩
  rw [Operator.steps, hop, Operator.passBound]
  omega

private theorem foldRows_input {σ : Type} {f : Database → σ → RowView → Step → Except ExecError σ}
    {n : Nat} (acc : σ) (hq : q.Fresh) (h : db.Active t)
    (hf : ∀ started, f (db.phase t started) = f db) (hfuel : q.fuel (db.reader t) ≤ n)
    (hsize : q.size (db.reader t) < n) :
    (∃ e, (q.operator.openIn n t db).answer = .error e ∧
      q.readAll (db.reader t) (f db) acc = .error e ∧
      (q.operator.openIn n t db).db = db.phase t (q.readsTouch (db.reader t) (f db) acc)) ∨
    (q.operator.openIn n t db).answer = .ok () ∧
      ∃ op', Operator.foldRows (Operator.nextIn n .empty) f n acc (q.operator.openIn n t db).op
        (q.operator.openIn n t db).db = ⟨q.readAll (db.reader t) (f db) acc, op',
          db.phase t (q.readsTouch (db.reader t) (f db) acc)⟩ := by
  have hopens : Opens t db q false (q.operator.openIn n t db) :=
    opens h (runs_operator (db.reader t) t false hq) hfuel
  exact foldRows_query acc hopens hf (fun _ _ _ => ⟨n, hfuel, rfl⟩) fun _ => hsize

private theorem collectTarget_phase (table : TableId) (kind : OperatorKind) (started : Bool) :
    Operator.collectTarget table kind (db.phase t started) = Operator.collectTarget table kind db := by
  unfold Operator.collectTarget Operator.changeTarget
  rw [Database.phase_catalog]

private theorem collectChange_phase (table : TableId) (assignments : List (Nat × Expr))
    (kind : OperatorKind) (started : Bool) :
    Operator.collectChange table assignments kind (db.phase t started) =
      Operator.collectChange table assignments kind db := by
  unfold Operator.collectChange Operator.changeTarget
  rw [Database.phase_catalog]

theorem drive_delete (table : TableId) (filter : Option Expr) (hq : q.Fresh) (h : db.Active t) :
    (drive (.delete table filter) (.delete table q.operator none) t db).outcome =
      q.readThen t db (Operator.collectTarget table q.operator.kind db) #[] fun rids =>
        modifying rids.size (Operator.deleteRows t table rids.toList) := by
  obtain ⟨n, hn, hfuel, hsize⟩ := steps_of_pass (.delete table q.operator none) hq t rfl
  rw [drive, Operator.openUnder, hn, Operator.openIn]
  rcases foldRows_input #[] hq h (collectTarget_phase table q.operator.kind) hfuel hsize with
    ⟨e, herror, hread, hdb⟩ | ⟨hok, op', hfold⟩
  · simp only [herror]
    rw [conclude_error rfl, readThen, hread]
    exact Prod.ext rfl hdb
  · simp only [hok, hfold]
    rw [readThen]
    cases q.readAll (db.reader t) (Operator.collectTarget table q.operator.kind db) #[] with
    | error e => rfl
    | ok rids =>
      simp only [Turn.ofAction, modifying]
      cases (Operator.deleteRows t table rids.toList).run _ with
      | ok _ db => rfl
      | error e db => rfl

theorem drive_update (table : TableId) (sets : List Assignment) (filter : Option Expr)
    (assignments : List (Nat × Expr)) (hq : q.Fresh) (h : db.Active t) :
    (drive (.update table sets filter) (.update table assignments q.operator none) t db).outcome =
      q.readThen t db (Operator.collectChange table assignments q.operator.kind db) #[]
        fun changes => modifying changes.size (Operator.updateRows t table changes.toList) := by
  obtain ⟨n, hn, hfuel, hsize⟩ :=
    steps_of_pass (.update table assignments q.operator none) hq t rfl
  rw [drive, Operator.openUnder, hn, Operator.openIn]
  rcases foldRows_input #[] hq h (collectChange_phase table assignments q.operator.kind) hfuel hsize
    with ⟨e, herror, hread, hdb⟩ | ⟨hok, op', hfold⟩
  · simp only [herror]
    rw [conclude_error rfl, readThen, hread]
    exact Prod.ext rfl hdb
  · simp only [hok, hfold]
    rw [readThen]
    cases q.readAll (db.reader t) (Operator.collectChange table assignments q.operator.kind db) #[] with
    | error e => rfl
    | ok changes =>
      simp only [Turn.ofAction, modifying]
      cases (Operator.updateRows t table changes.toList).run _ with
      | ok _ db => rfl
      | error e db => rfl

end Session

end SnapshotSql
