import SnapshotSql.Proofs.Query.Tree
import SnapshotSql.Proofs.Transaction.Effects
/-! # Running queries -/

namespace SnapshotSql

namespace Database

def snapshotOf (t : TxHandle) (db : Database) : Snapshot :=
  if (db.transaction t).isolation.pinsSnapshot then (db.start t).2 else (db.begun t).registry.snapshot

/-- What a transaction that opens a query now reads. -/
def reader (t : TxHandle) (db : Database) : Reader where
  versions id := (db.catalog.table id).versions.toList
  see access v := (db.begun t).registry.visibility (db.start t).1 (db.snapshotOf t) access v

def phase (t : TxHandle) (db : Database) (started : Bool) : Database :=
  if started then db.begun t else db

variable {t : TxHandle} {db : Database} {s : Bool}

@[simp] theorem phase_catalog : (db.phase t s).catalog = db.catalog := by
  cases s
  · rfl
  · exact begun_catalog

theorem active_phase (h : db.Active t) : (db.phase t s).Active t := by
  cases s
  · exact h
  · exact active_begun h

theorem begun_phase (h : db.Active t) : (db.phase t s).begun t = db.begun t := by
  cases s
  · rfl
  · exact begun_begun h.1

theorem start_phase (h : db.Active t) : (db.phase t s).start t = db.start t := by
  cases s
  · rfl
  · exact start_begun h.1

theorem snapshotOf_phase (h : db.Active t) : (db.phase t s).snapshotOf t = db.snapshotOf t := by
  cases s with
  | false => rfl
  | true =>
    have hisolation : ((db.begun t).transaction t).isolation = (db.transaction t).isolation := by
      rw [transaction_begun_self h.1]
    show (db.begun t).snapshotOf t = _
    rw [snapshotOf, snapshotOf, hisolation, start_begun h.1, begun_begun h.1]

theorem readSnapshot_phase (h : db.Active t) :
    t.readSnapshot.run (db.phase t s) = .ok (db.snapshotOf t) (db.phase t true) := by
  have hactive : (db.phase t s).Active t := active_phase h
  rw [TxHandle.readSnapshot_run hactive, ← snapshotOf_phase h (s := s), snapshotOf, begun_phase h]
  rfl

theorem visibility_phase (h : db.Active t) (access : Access) (v : Version) :
    (t.visibility (db.snapshotOf t) access v).run (db.phase t s) =
      .ok ((db.reader t).see access v) (db.phase t true) := by
  have hactive : (db.phase t s).Active t := active_phase h
  rw [TxHandle.visibility_run hactive, begun_phase h, start_phase h]
  rfl

end Database

namespace QueryTree

def collected (R : Reader) (q : QueryTree) : Except ExecError (Array (Row × Step)) := do
  let s ← q.stream R
  s.fold (Operator.collectRow {}) #[]

/-- The operator runs the query for a transaction that has started or not, and what it has buffered for
the transaction is right. -/
inductive Runs (R : Reader) (t : TxHandle) (started : Bool) : QueryTree → Operator → Prop
  | scan (s : TableScan) (opened : Option (TxHandle × Snapshot)) (cursor : Nat)
      (current : Option Version) (hs : opened ≠ none → started = true) :
      Runs R t started (.scan s) (.tableScan { s with opened, cursor, current })
  | filter {q : QueryTree} {op : Operator} (condition : Expr) (policy : ConflictPolicy)
      (h : Runs R t started q op) :
      Runs R t started (.filter condition policy q) (.predicate condition policy [op])
  | literal (items : List SelectItem) (row : Option StringList) :
      Runs R t started (.literal items) (.project items [] row)
  | project {q : QueryTree} {op : Operator} (items : List SelectItem) (row : Option StringList)
      (h : Runs R t started q op) : Runs R t started (.project items q) (.project items [op] row)
  | join {q r : QueryTree} {left right : Operator} (state : JoinState)
      (hl : Runs R t started q left) (hr : Runs R t started r right) :
      Runs R t started (.join q r) (.join left right state)
  | aggregate {q : QueryTree} {op : Operator} (groupBy : List Expr) (calls : List AggregateCall)
      (b : Buffer) (h : Runs R t started q op) :
      Runs R t started (.aggregate groupBy calls q) (.aggregate groupBy calls op b)
  | sort {q : QueryTree} {op : Operator} (keys : List SortKey) (b : Buffer)
      (h : Runs R t started q op) : Runs R t started (.sort keys q) (.sort keys op b)
  | rename {q : QueryTree} {op : Operator} (qualifier : String) (h : Runs R t started q op) :
      Runs R t started (.rename qualifier q) (.subQuery qualifier op)
  | cached {q : QueryTree} {op : Operator} (b : Buffer) (owner : Option TxHandle)
      (h : Runs R t started q op) (hb : owner = some t → q.collected R = .ok b.rows)
      (hs : owner = some t → q.cached.touches R = true → started = true) :
      Runs R t started (.cached q) (.cached op b owner)

variable {R : Reader} {t : TxHandle} {started : Bool} {q : QueryTree} {op : Operator}

theorem runs_operator (R : Reader) (t : TxHandle) (started : Bool) {q : QueryTree}
    (hq : q.Fresh) : q.Runs R t started q.operator := by
  induction q with
  | scan s => exact .scan s s.opened s.cursor s.current (fun h => absurd hq h)
  | filter condition policy input ih => exact .filter condition policy (ih hq)
  | literal items => exact .literal items none
  | project items input ih => exact .project items none (ih hq)
  | join left right ihl ihr => exact .join {} (ihl hq.1) (ihr hq.2)
  | aggregate groupBy calls input ih => exact .aggregate groupBy calls {} (ih hq)
  | sort keys input ih => exact .sort keys {} (ih hq)
  | rename qualifier input ih => exact .rename qualifier (ih hq)
  | cached input ih => exact .cached {} none (ih hq) (by simp) (by simp)

theorem runs_later (f : Bool) (h : q.Runs R t started op) : q.Runs R t (started || f) op := by
  induction h with
  | scan s opened cursor current hs =>
    have hs' : opened ≠ none → (started || f) = true := by
      intro hopened
      rw [hs hopened, Bool.true_or]
    exact .scan s opened cursor current hs'
  | filter condition policy _ ih => exact .filter condition policy ih
  | literal items row => exact .literal items row
  | project items row _ ih => exact .project items row ih
  | join state _ _ ihl ihr => exact .join state ihl ihr
  | aggregate groupBy calls b _ ih => exact .aggregate groupBy calls b ih
  | sort keys b _ ih => exact .sort keys b ih
  | rename qualifier _ ih => exact .rename qualifier ih
  | cached b owner _ hb hs ih =>
    exact .cached b owner ih hb fun howner htouches => by rw [hs howner htouches, Bool.true_or]

theorem runs_close (h : q.Runs R t started op) : q.Runs R t started op.close := by
  induction h with
  | scan s opened cursor current _ => exact .scan s none cursor none (fun h => absurd rfl h)
  | filter condition policy _ ih => exact .filter condition policy ih
  | literal items row => exact .literal items _
  | project items row _ ih => exact .project items _ ih
  | join state _ _ ihl ihr => exact .join {} ihl ihr
  | aggregate groupBy calls b _ ih => exact .aggregate groupBy calls b.clear ih
  | sort keys b _ ih => exact .sort keys b.clear ih
  | rename qualifier _ ih => exact .rename qualifier ih
  | cached b owner h hb hs _ => exact .cached b.leave owner h hb hs

/-- The bounds of a query are bounds for its operators, whatever their progress. -/
theorem bounds_of_runs {c : Catalog}
    (hc : ∀ id, (R.versions id).length = (c.table id).versions.size) (h : q.Runs R t started op) :
    q.size R ≤ op.rowBound c ∧ q.fuel R ≤ op.stepBound c := by
  induction h with
  | scan s opened cursor current _ => exact ⟨Nat.le_of_eq (hc s.table), Nat.le_refl 1⟩
  | literal items row => exact ⟨Nat.le_refl 1, Nat.le_refl 1⟩
  | join state _ _ ihl ihr =>
    refine ⟨Nat.mul_le_mul ihl.1 ihr.1, ?_⟩
    simp only [fuel, Operator.stepBound, Operator.passBound]
    omega
  | filter condition policy _ ih =>
    simp only [size, fuel, Operator.rowBound, Operator.rowBoundAll, Operator.stepBound,
      Operator.stepBoundAll, Operator.passBound]
    omega
  | project items row _ ih =>
    simp only [size, fuel, Operator.rowBound, Operator.rowBoundAll, Operator.stepBound,
      Operator.stepBoundAll, Operator.passBound]
    omega
  | aggregate groupBy calls b _ ih =>
    simp only [size, fuel, Operator.rowBound, Operator.stepBound, Operator.passBound]
    omega
  | sort keys b _ ih =>
    simp only [size, fuel, Operator.rowBound, Operator.stepBound, Operator.passBound]
    omega
  | rename qualifier _ ih =>
    simp only [size, fuel, Operator.rowBound, Operator.stepBound, Operator.passBound]
    omega
  | cached b owner _ _ _ ih =>
    simp only [size, fuel, Operator.rowBound, Operator.stepBound, Operator.passBound]
    omega

/-- Every call on the operator, with any steps from `n` on, answers the same, starts the transaction if
`touches`, and leaves an operator of which `after` holds. -/
def Calls (t : TxHandle) (db : Database) (q : QueryTree) (n : Nat) (touches : Bool)
    (answer : Except ExecError Step) (op : Operator) (after : Operator → Prop) : Prop :=
  ∀ m ≥ n, ∀ started, q.Runs (db.reader t) t started op → ∃ op',
    op.nextIn m .empty (db.phase t started) = ⟨answer, op', db.phase t (started || touches)⟩ ∧
      q.Runs (db.reader t) t (started || touches) op' ∧ after op'

/-- The answers of an operator from now on: the rows of a stream one after the other, each to be read
until the next call, and then its end. The next call opens a scan before anything else if `touches`. -/
def Delivers (t : TxHandle) (db : Database) (q : QueryTree) (n : Nat) :
    Bool → Stream → Operator → Prop
  | touches, .done, op => Calls t db q n touches (.ok .done) op fun _ => True
  | touches, .fail e, op => Calls t db q n touches (.error e) op fun _ => True
  | touches, .row v c rest, op => Calls t db q n touches (.ok (.of c)) op fun op' =>
      op'.current = .ok v ∧ Delivers t db q n false rest op'
  | _, .touch rest, op => Delivers t db q n true rest op

end QueryTree

end SnapshotSql
