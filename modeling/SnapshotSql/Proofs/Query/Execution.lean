import SnapshotSql.Proofs.Query.Open
import SnapshotSql.Proofs.Query.Planned
import SnapshotSql.Proofs.Query.Genuine
import SnapshotSql.Proofs.Transaction.SnapshotReads
/-! # Executing queries -/

namespace SnapshotSql

/-- The versions of a table that a transaction may read now. -/
def Database.visibleTo (t : TxHandle) (db : Database) (id : TableId) : List Version :=
  match t.readSnapshot.run db with
  | .error _ _ => []
  | .ok snapshot db =>
    (db.catalog.table id).versions.toList.filter fun v =>
      match (t.visibility snapshot .read v).run db with
      | .error _ _ => false
      | .ok seen _ => seen = .visible

namespace Operator

/-- The answers of an opened operator: the steps and the rows to be read after them, until it comes to
its end or fails. -/
inductive Answers :
    Operator → Database → List (Step × Except ExecError Row) → Except ExecError Unit → Prop
  | done {op op' : Operator} {db db' : Database} (h : op.next .empty db = .ok .done op' db') :
      Answers op db [] (.ok ())
  | fail {op op' : Operator} {db db' : Database} {e : ExecError}
      (h : op.next .empty db = .fail e op' db') : Answers op db [] (.error e)
  | row {op op' : Operator} {db db' : Database} {step : Step}
      {rows : List (Step × Except ExecError Row)} {last : Except ExecError Unit}
      (h : op.next .empty db = .ok step op' db') (hstep : step ≠ .done)
      (hrest : Answers op' db' rows last) : Answers op db ((step, op'.currentRow) :: rows) last

/-- The answers of an operator that is opened first. -/
inductive Executes (t : TxHandle) :
    Operator → Database → List (Step × Except ExecError Row) → Except ExecError Unit → Prop
  | refused {op op' : Operator} {db db' : Database} {e : ExecError}
      (h : op.openUnder t db = .fail e op' db') : Executes t op db [] (.error e)
  | opened {op op' : Operator} {db db' : Database} {rows : List (Step × Except ExecError Row)}
      {last : Except ExecError Unit} (h : op.openUnder t db = .ok () op' db')
      (hrows : Answers op' db' rows last) : Executes t op db rows last

theorem answers_unique {op : Operator} {db : Database} {rows rows' : List (Step × Except ExecError Row)}
    {last last' : Except ExecError Unit} (h : op.Answers db rows last) (h' : op.Answers db rows' last') :
    rows = rows' ∧ last = last' := by
  induction h generalizing rows' last' with
  | done h =>
    cases h' with
    | done h' => exact ⟨rfl, rfl⟩
    | fail h' => cases h.symm.trans h'
    | row h' hstep _ =>
      cases h.symm.trans h'
      exact absurd rfl hstep
  | fail h =>
    cases h' with
    | done h' => cases h.symm.trans h'
    | fail h' =>
      cases h.symm.trans h'
      exact ⟨rfl, rfl⟩
    | row h' _ _ => cases h.symm.trans h'
  | row h hstep _ ih =>
    cases h' with
    | done h' =>
      cases h.symm.trans h'
      exact absurd rfl hstep
    | fail h' => cases h.symm.trans h'
    | row h' _ hrest =>
      cases h.symm.trans h'
      obtain ⟨rfl, rfl⟩ := ih hrest
      exact ⟨rfl, rfl⟩

theorem executes_unique {t : TxHandle} {op : Operator} {db : Database}
    {rows rows' : List (Step × Except ExecError Row)} {last last' : Except ExecError Unit}
    (h : op.Executes t db rows last) (h' : op.Executes t db rows' last') :
    rows = rows' ∧ last = last' := by
  cases h with
  | refused h =>
    cases h' with
    | refused h' =>
      cases h.symm.trans h'
      exact ⟨rfl, rfl⟩
    | opened h' _ => cases h.symm.trans h'
  | opened h hrows =>
    cases h' with
    | refused h' => cases h.symm.trans h'
    | opened h' hrows' =>
      cases h.symm.trans h'
      exact answers_unique hrows hrows'

end Operator

namespace Stream

/-- The rows of a stream with their steps. -/
def rows : Stream → List (Step × Except ExecError Row)
  | done => []
  | fail _ => []
  | row v c rest => (.of c, v.copy) :: rest.rows
  | touch rest => rest.rows

def last : Stream → Except ExecError Unit
  | done => .ok ()
  | fail e => .error e
  | row _ _ rest => rest.last
  | touch rest => rest.last

theorem rows_of_shows {s : Stream} {rs : List Row} (h : s.Shows rs) :
    s.rows = rs.map (fun r => (.row, .ok r)) ∧ s.last = .ok () := by
  induction h with
  | done => exact ⟨rfl, rfl⟩
  | row hv _ ih =>
    refine ⟨?_, ih.2⟩
    rw [rows, List.map_cons, hv, ih.1]
    rfl
  | touch _ ih => exact ih

theorem raises_last {V : RowView → Prop} {P : ExecError → Prop} {s : Stream} (h : s.Each V P) :
    Raises P s.last := by
  induction s with
  | done => exact .ok ()
  | fail e => exact .error h
  | row v c rest ih => exact ih h.2
  | touch rest ih => exact ih h

end Stream

namespace Database

variable {t : TxHandle} {db : Database}

theorem visibleTo_eq (h : db.Active t) : db.visibleTo t = (db.reader t).visible := by
  funext id
  rw [visibleTo, show t.readSnapshot.run db = _ from readSnapshot_phase h (s := false)]
  simp only [visibility_phase h, phase_catalog]
  rfl

theorem reader_uncontested (t : TxHandle) (db : Database) (v : Version) :
    (db.reader t).see .read v ≠ .contested :=
  ((db.begun t).registry.visibility_read _ _ v).1

end Database

namespace QueryTree

variable {t : TxHandle} {db : Database} {q : QueryTree} {op : Operator} {started : Bool}

theorem bounds_le (hruns : q.Runs (db.reader t) t started op) :
    q.size (db.reader t) ≤ op.rowBound (db.phase t started).catalog ∧
      q.fuel (db.reader t) ≤ op.stepBound (db.phase t started).catalog := by
  have hsizes : ∀ id, ((db.reader t).versions id).length =
      ((db.phase t started).catalog.table id).versions.size := by
    intro id
    rw [Database.phase_catalog]
    exact Array.length_toList
  exact bounds_of_runs hsizes hruns

theorem fuel_le_steps (hruns : q.Runs (db.reader t) t started op) :
    q.fuel (db.reader t) ≤ op.steps (db.phase t started).catalog :=
  Nat.le_trans (bounds_le hruns).2 (Nat.le_add_right _ _)

theorem answers_of_delivers {s : Stream} {touches : Bool}
    (h : Delivers t db q (q.fuel (db.reader t)) touches s op)
    (hruns : q.Runs (db.reader t) t started op) : op.Answers (db.phase t started) s.rows s.last := by
  induction s generalizing op started touches with
  | done =>
    obtain ⟨op', hrun, _⟩ := h _ (fuel_le_steps hruns) started hruns
    exact .done hrun
  | fail e =>
    obtain ⟨op', hrun, _⟩ := h _ (fuel_le_steps hruns) started hruns
    exact .fail hrun
  | row v c rest ih =>
    obtain ⟨op', hrun, hruns', hcurrent, hrest⟩ := h _ (fuel_le_steps hruns) started hruns
    have hrow : op'.currentRow = v.copy := by
      rw [Operator.currentRow, hcurrent]
      rfl
    rw [Stream.rows, ← hrow]
    exact .row hrun (Step.of_ne_done c) (ih hrest hruns')
  | touch rest ih => exact ih h hruns

theorem opens_openUnder (hq : q.Fresh) (h : db.Active t) :
    Opens t db q false (q.operator.openUnder t db) := by
  have hruns := runs_operator (db.reader t) t false hq
  exact opens h hruns (fuel_le_steps hruns)

theorem executes_stream (hq : q.Fresh) (h : db.Active t) :
    match q.stream (db.reader t) with
    | .error e => q.operator.Executes t db [] (.error e)
    | .ok s => q.operator.Executes t db s.rows s.last := by
  have hopens := opens_openUnder hq h
  cases hturn : q.operator.openUnder t db with
  | mk answer op' db' =>
    rw [hturn] at hopens
    obtain ⟨hdb', hruns', hanswer⟩ := hopens
    cases hs : q.stream (db.reader t) with
    | error e =>
      rw [hs] at hanswer
      cases hanswer
      exact .refused hturn
    | ok s =>
      rw [hs] at hanswer
      obtain ⟨hok, hdelivers⟩ := hanswer
      cases hok
      cases hdb'
      exact .opened hturn (answers_of_delivers hdelivers hruns')

/-- Executing a query comes to an end, and fails in no other way than the query does. -/
theorem executes_ends (hq : q.Fresh) (h : db.Active t) :
    ∃ rows last, q.operator.Executes t db rows last ∧
      ∀ (V : RowView → Prop) (P : ExecError → Prop), q.Yields (db.reader t) V P → Raises P last := by
  have hstream := executes_stream hq h
  cases hs : q.stream (db.reader t) with
  | error e =>
    rw [hs] at hstream
    exact ⟨[], .error e, hstream, fun V P hyields => .error (hyields.opens e hs)⟩
  | ok s =>
    rw [hs] at hstream
    exact ⟨s.rows, s.last, hstream, fun V P hyields => Stream.raises_last (hyields.rows s hs)⟩

theorem yields_unless_panic {R : Reader} (h : q.KeysInOrder R) :
    q.Yields R (·.Supplies (· ≠ .sortPanic) fun _ => True) (· ≠ .sortPanic) := by
  refine yields_any ?_ (fun name => nofun) (.inr h)
  rintro e he rfl
  cases he

theorem executes_rows {rs : List Row} (hfresh : q.Fresh) (hq : q.ReadOnly) (h : db.Active t)
    (hrs : q.rows (db.visibleTo t) = .ok rs) :
    q.operator.Executes t db (rs.map fun r => (.row, .ok r)) (.ok ()) := by
  rw [Database.visibleTo_eq h] at hrs
  obtain ⟨s, hs, hshows⟩ := stream_of_rows (Database.reader_uncontested t db) hq hrs
  obtain ⟨hrows, hlast⟩ := Stream.rows_of_shows hshows
  have hstream := executes_stream hfresh h
  rw [hs] at hstream
  simp only [hrows, hlast] at hstream
  exact hstream

theorem operator_injective {q r : QueryTree} (h : q.operator = r.operator) : q = r := by
  induction q generalizing r with
  | scan s =>
    cases r <;> simp only [operator, reduceCtorEq] at h
    rw [Operator.tableScan.inj h]
  | filter condition policy q ih =>
    cases r <;> simp only [operator, reduceCtorEq] at h
    obtain ⟨rfl, rfl, hinputs⟩ := Operator.predicate.inj h
    rw [ih (List.cons.inj hinputs).1]
  | literal items =>
    cases r <;> simp [operator] at h
    rw [h]
  | project items q ih =>
    cases r <;> simp [operator] at h
    rw [h.1, ih h.2]
  | join left right ihl ihr =>
    cases r <;> simp only [operator, reduceCtorEq] at h
    obtain ⟨hl, hr, _⟩ := Operator.join.inj h
    rw [ihl hl, ihr hr]
  | aggregate groupBy calls q ih =>
    cases r <;> simp only [operator, reduceCtorEq] at h
    obtain ⟨rfl, rfl, hinput, _⟩ := Operator.aggregate.inj h
    rw [ih hinput]
  | sort keys q ih =>
    cases r <;> simp only [operator, reduceCtorEq] at h
    obtain ⟨rfl, hinput, _⟩ := Operator.sort.inj h
    rw [ih hinput]
  | rename qualifier q ih =>
    cases r <;> simp only [operator, reduceCtorEq] at h
    obtain ⟨rfl, hinput⟩ := Operator.subQuery.inj h
    rw [ih hinput]
  | cached q ih =>
    cases r <;> simp only [operator, reduceCtorEq] at h
    rw [ih (Operator.cached.inj h).1]

end QueryTree

/-- The operators of a planned SELECT are those of a query. Under an active transaction they come to
an end, be it with an error or, where the keys of a sort are in no order, with its panic. They yield the
rows that the query means, if it means any. -/
theorem Plan.select_executes {c : Catalog} {options : PlannerOptions} {policy : ConflictPolicy}
    {select : Select} {plan : Plan} {op : Operator} {t : TxHandle} {db : Database}
    (hplan : ofStatement c options (.select select) = .ok plan)
    (hop : plan.lower c policy = .ok op) (hactive : db.Active t) :
    ∃ q : QueryTree, q.operator = op ∧
      (∃ rows last, op.Executes t db rows last ∧ last ≠ .error (.internal .stepLimit) ∧
        (q.KeysInOrder (db.reader t) → last ≠ .error .sortPanic)) ∧
      ∀ rs, q.rows (db.visibleTo t) = .ok rs →
        op.Executes t db (rs.map fun r => (.row, .ok r)) (.ok ()) := by
  rw [ofStatement] at hplan
  obtain ⟨q, rfl, hfresh, hq⟩ := lower_reads (reads_ofSelect select hplan) hop
  obtain ⟨rows, last, hexecutes, hraises⟩ := QueryTree.executes_ends hfresh hactive
  refine ⟨q, rfl, ⟨rows, last, hexecutes, ?_, fun hkeys => ?_⟩,
    fun rs => QueryTree.executes_rows hfresh hq hactive⟩
  · exact fun hlast => hraises _ _ (q.yields_genuine _) _ hlast .stepLimit
  · exact fun hlast => hraises _ _ (QueryTree.yields_unless_panic hkeys) _ hlast rfl

/-- A table joined with a query on itself: `SELECT a.n FROM t, (SELECT t.n FROM t) AS a`. -/
def selfJoin : Select where
  items := [⟨.field ⟨"a", "n", .integer⟩, none⟩]
  sources := [⟨.table ⟨0⟩, none⟩,
    ⟨.query ⟨[⟨.field ⟨"t", "n", .integer⟩, none⟩], [⟨.table ⟨0⟩, none⟩], none, [], none, []⟩ "a",
      none⟩]
  filter := none
  groupBy := []
  having := none
  orderBy := []

/-- The query of `selfJoin`. The outer scan needs no column. -/
def selfJoinQuery : QueryTree :=
  let scan (columns : List Nat) (names : List CellName) : TableScan :=
    ⟨⟨0⟩, columns, names, .read, [], .absorbUnmatched, none, 0, none⟩
  .project selfJoin.items (.join (.scan (scan [] [])) (.rename "a"
    (.project [⟨.field ⟨"t", "n", .integer⟩, none⟩] (.scan (scan [0] [.qualified "t" "n"])))))

theorem Plan.select_executes_selfJoin :
    ∃ plan, ofStatement History.readAfterCommit.final.catalog {} (.select selfJoin) = .ok plan ∧
      plan.lower History.readAfterCommit.final.catalog .absorbUnmatched =
        .ok selfJoinQuery.operator ∧
      History.readAfterCommit.final.Active ⟨1⟩ ∧
      selfJoinQuery.operator.Executes ⟨1⟩ History.readAfterCommit.final
        [(.row, .ok { names := [.qualified "a" "n"], values := [.integer 1] })] (.ok ()) := by
  refine ⟨_, rfl, rfl, ⟨by decide, rfl⟩, ?_⟩
  have hactive : History.readAfterCommit.final.Active ⟨1⟩ := ⟨by decide, rfl⟩
  obtain ⟨q, hq, _, hrows⟩ := select_executes
    (show ofStatement History.readAfterCommit.final.catalog {} (.select selfJoin) = .ok _ from rfl)
    (show lower History.readAfterCommit.final.catalog .absorbUnmatched _ =
      .ok selfJoinQuery.operator from rfl) hactive
  cases QueryTree.operator_injective hq
  exact hrows _ rfl

end SnapshotSql
