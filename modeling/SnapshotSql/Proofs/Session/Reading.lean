import SnapshotSql.Proofs.Query.Quiet
import SnapshotSql.Proofs.Session.System
/-! # Statements that only read -/

namespace SnapshotSql

theorem QueryTree.quiet_operator {q : QueryTree} (h : q.ReadOnly) : q.operator.Quiet := by
  induction q with
  | scan s => exact .tableScan h
  | filter condition policy q ih => exact .predicate (List.forall_mem_singleton.mpr (ih h))
  | literal items => exact .project nofun nofun
  | project items q ih => exact .project (List.forall_mem_singleton.mpr (ih h)) nofun
  | join left right ihl ihr => exact .join (ihl h.1) (ihr h.2) nofun
  | aggregate groupBy calls q ih => exact .aggregate (ih h) Buffer.quiet_empty
  | sort keys q ih => exact .sort (ih h) Buffer.quiet_empty
  | rename qualifier q ih => exact .subQuery (ih h)
  | cached q ih => exact .cached (ih h) Buffer.quiet_empty

/-- The statement only reads. An explanation does not run what it explains. -/
def Statement.reads : Statement → Bool
  | select _ | compute _ | showTables | explain _ => true
  | _ => false

namespace Session

variable {s : Session} {c : Catalog} {db : Database} {stmt : Statement} {op : Operator}
  {t : TxHandle}

/-- The operator tree that a statement runs. -/
def driven (s : Session) (c : Catalog) : Statement → Except ExecError Operator
  | .showTables => .ok (.stringList (StringList.create tablesColumn c.names))
  | stmt => s.plan c stmt

theorem execute_driven (h : stmt.reads = true) :
    s.execute stmt db = match s.driven db.catalog stmt with
      | .error e => ⟨.error e, s, db⟩
      | .ok op => s.run stmt op db := by
  cases stmt <;> first | rfl | cases h

private theorem quiet_driven (h : stmt.reads = true) (hop : s.driven c stmt = .ok op) : op.Quiet := by
  cases stmt with
  | select query =>
    obtain ⟨q, rfl, _, hq⟩ := plan_select hop
    exact QueryTree.quiet_operator hq
  | compute exprs =>
    cases (plan_compute (s := s) (c := c) exprs).symm.trans hop
    exact .compute exprs _
  | showTables =>
    cases hop
    exact .stringList (StringList.quiet_create _ _)
  | explain stmt =>
    obtain ⟨input, rfl⟩ := plan_explain hop
    exact .explain input _
  | _ => cases h

private theorem calm_driven (s : Session) (c : Catalog) (stmt : Statement) :
    Calm (fun _ => True) (s.driven c stmt) := by
  have hplan : Calm (fun _ => True) (s.plan c stmt) := by
    rw [plan]
    cases Plan.ofStatement c s.options.planner stmt with
    | error e => rintro table rid ⟨⟩
    | ok p =>
      dsimp only
      cases p.lower c s.options.policy with
      | error e => rintro table rid ⟨⟩
      | ok op => trivial
  cases stmt with
  | showTables => trivial
  | _ => exact hplan

private theorem calm_collectValues (stmt : Statement) (db : Database) (rows : Array (List Value))
    (v : RowView) : Calm (fun _ => True) (collectValues stmt db rows v .row) :=
  calm_bind (p := fun _ => True) (calm_of_genuine v.genuine_copy fun _ _ => trivial)
    fun _ _ => trivial

private theorem quiet_collect (h : stmt.reads = true) (hop : op.Quiet) :
    (collect stmt op db).Quiet db.catalog fun _ => True := by
  have hcollect : ∃ rounds, collect stmt op db = rowsResult stmt
      (Operator.foldRows (Operator.next .empty) (collectValues stmt) rounds #[] op db) := by
    cases stmt <;> first | exact ⟨_, rfl⟩ | cases h
  obtain ⟨rounds, hcollect⟩ := hcollect
  rw [hcollect, rowsResult]
  obtain ⟨hop, hcatalog, hanswer⟩ :
      (Operator.foldRows (Operator.next .empty) (collectValues stmt) rounds #[] op db).Quiet db.catalog
        fun _ => True :=
    Operator.quiet_foldRows (fun op db hop => (Operator.quiet_calls _).2 hop)
      (fun db rows v _ => calm_collectValues stmt db rows v) trivial hop rfl
  generalize Operator.foldRows (Operator.next .empty) (collectValues stmt) rounds #[] op db = turn
    at hop hcatalog hanswer
  obtain ⟨answer, op, db'⟩ := turn
  cases answer with
  | error e => exact ⟨hop, hcatalog, hanswer⟩
  | ok rows => exact ⟨hop, hcatalog, trivial⟩

theorem quiet_drive (h : stmt.reads = true) (hop : op.Quiet) :
    (drive stmt op t db).Quiet db.catalog fun _ => True := by
  rw [drive, conclude]
  obtain ⟨hop, hcatalog, hanswer⟩ : (op.openUnder t db).Quiet db.catalog fun _ => True :=
    (Operator.quiet_calls _).1 hop
  generalize op.openUnder t db = turn at hop hcatalog hanswer
  obtain ⟨answer, op, db'⟩ := turn
  cases answer with
  | error e => exact ⟨hop, hcatalog, hanswer⟩
  | ok _ =>
    have hcatalog : db'.catalog = db.catalog := hcatalog
    rw [← hcatalog]
    exact Turn.quiet_under (quiet_collect h hop) fun op => Operator.quiet_close

private theorem statementTx_catalog : (s.statementTx db).2.2.catalog = db.catalog := by
  unfold statementTx
  split
  · rfl
  · dsimp only
    split <;> rfl

theorem run_quiet (h : stmt.reads = true) (hop : op.Quiet) :
    (s.run stmt op db).db.catalog = db.catalog ∧ Calm (fun _ => True) (s.run stmt op db).result := by
  rw [run]
  have hbegun : (s.statementTx db).2.2.catalog = db.catalog := statementTx_catalog
  generalize s.statementTx db = begun at hbegun
  obtain ⟨⟨t, owned⟩, s', db₁⟩ := begun
  rw [← hbegun]
  dsimp only
  obtain ⟨_, hcatalog, hanswer⟩ : (drive stmt op t db₁).Quiet db₁.catalog fun _ => True :=
    quiet_drive h hop
  generalize drive stmt op t db₁ = turn at hcatalog hanswer
  obtain ⟨answer, op', db₂⟩ := turn
  have hcatalog : db₂.catalog = db₁.catalog := hcatalog
  cases owned with
  | false => exact ⟨hcatalog, hanswer⟩
  | true =>
    have hfinish := fun how => t.quiet_finish how db₂
    cases answer with
    | ok result =>
      have hcommit := hfinish .committed
      dsimp only [TxHandle.commit, Bool.not_true, Bool.false_eq_true, if_false]
      generalize (t.finish .committed).run db₂ = ending at hcommit
      cases ending with
      | ok _ db₃ => exact ⟨hcommit.2.trans hcatalog, trivial⟩
      | error e db₃ =>
        refine ⟨hcommit.2.trans hcatalog, ?_⟩
        rintro table rid ⟨⟩
        exact hcommit.1 table rid rfl
    | error e =>
      have hrollback := hfinish .aborted
      dsimp only [TxHandle.rollback, Bool.not_true, Bool.false_eq_true, if_false]
      generalize (t.finish .aborted).run db₂ = ending at hrollback
      cases ending with
      | ok _ db₃ => exact ⟨hrollback.2.trans hcatalog, hanswer⟩
      | error e db₃ => exact ⟨hrollback.2.trans hcatalog, hanswer⟩

theorem catalog_execute (h : stmt.reads = true) : (s.execute stmt db).db.catalog = db.catalog := by
  rw [execute_driven h]
  cases hop : s.driven db.catalog stmt with
  | error e => rfl
  | ok op => exact (run_quiet h (quiet_driven h hop)).1

theorem session_execute (h : stmt.reads = true) {origin : TxOrigin} (hs : s.held = some (t, origin)) :
    (s.execute stmt db).session = s := by
  rw [execute_driven h]
  cases s.driven db.catalog stmt with
  | error e => rfl
  | ok op =>
    dsimp only
    rw [run_held hs]

/-- Statements that only read never fail with a conflict and leave the catalog with all versions as
it is, whether they succeed or fail, in any session and on any database. Of the operators that they
run none ever meets a contested row. -/
theorem execute_reading (s : Session) (db : Database) {stmt : Statement} (h : stmt.reads = true) :
    (∀ table rid, (s.execute stmt db).result ≠ .error (.transaction (.conflict table rid))) ∧
      (s.execute stmt db).db.catalog = db.catalog ∧
      ∀ op, s.driven db.catalog stmt = .ok op → s.execute stmt db = s.run stmt op db ∧
        ∀ op', op.Reaches op' → ∀ n env db', (op'.nextIn n env db').answer ≠ .ok .contested := by
  have hexecute : s.execute stmt db = match s.driven db.catalog stmt with
      | .error e => ⟨.error e, s, db⟩
      | .ok op => s.run stmt op db := execute_driven h
  have hdriven := calm_driven s db.catalog stmt
  cases hop : s.driven db.catalog stmt with
  | error e =>
    rw [hop] at hexecute hdriven
    refine ⟨?_, catalog_execute h, nofun⟩
    rw [hexecute]
    rintro table rid heq
    exact hdriven table rid (Except.error.inj heq)
  | ok op =>
    rw [hop] at hexecute
    have hquiet := quiet_driven h hop
    have hresult : Calm (fun _ => True) (s.run stmt op db).result := (run_quiet h hquiet).2
    refine ⟨?_, catalog_execute h, ?_⟩
    · rw [hexecute]
      intro table rid heq
      rw [heq] at hresult
      exact hresult table rid rfl
    · rintro op' ⟨⟩
      refine ⟨hexecute, fun op' hreaches n env db' heq => ?_⟩
      have hanswer : Calm (· ≠ .contested) (op'.nextIn n env db').answer :=
        ((Operator.quiet_calls n).2 (Operator.quiet_of_reaches hquiet hreaches)).answer
      rw [heq] at hanswer
      exact hanswer rfl

/-- A committed row that one session is replacing while another one shows contested rows. -/
def replacedRow : List Event :=
  [.connect {}, .connect { policy := .surfaceAll },
    .operate (.createTable "t" [⟨"a", .integer, true⟩]), .execute 0 (.insert ⟨0⟩ [[.integer 1]]),
    .execute 0 .begin, .execute 0 (.update ⟨0⟩ [⟨"a", .literal (.integer 2)⟩] none)]

def allRows : Statement := .select {
  items := [⟨.field ⟨"t", "a", .integer⟩, none⟩]
  sources := [⟨.table ⟨0⟩, none⟩]
  filter := none
  groupBy := []
  having := none
  orderBy := [] }

theorem execute_reading_replacedRow :
    let db := (System.after replacedRow).db
    let s : Session := { options := { policy := .surfaceAll } }
    allRows.reads = true ∧ (s.execute allRows db).result.toOption.isSome = true ∧
      (s.driven db.catalog allRows).toOption.isSome = true ∧
      (∀ table rid, (s.execute allRows db).result ≠ .error (.transaction (.conflict table rid))) ∧
      (s.execute allRows db).db.catalog = db.catalog ∧
      ∀ op, s.driven db.catalog allRows = .ok op → s.execute allRows db = s.run allRows op db ∧
        ∀ op', op.Reaches op' → ∀ n env db', (op'.nextIn n env db').answer ≠ .ok .contested :=
  ⟨rfl, by decide +kernel, by decide +kernel, execute_reading _ _ rfl⟩

end Session

end SnapshotSql
