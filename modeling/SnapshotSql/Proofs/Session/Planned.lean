import SnapshotSql.Proofs.Query.Planned
import SnapshotSql.Session
/-! # Planned statements -/

namespace SnapshotSql

/-- The name of a column's cell in rows of its table. -/
def TableSchema.cellName (s : TableSchema) (column : Column) : CellName :=
  .qualified s.name column.name

def TableScan.ofTargets (c : Catalog) (policy : ConflictPolicy) (table : TableId) : TableScan where
  table := table
  columns := List.range (c.table table).schema.width
  names := (c.table table).schema.columns.map (c.table table).schema.cellName
  access := .write
  predicates := []
  policy := policy

def QueryTree.targets (c : Catalog) (policy : ConflictPolicy) (table : TableId) :
    Option Expr → QueryTree
  | none => .scan (.ofTargets c policy table)
  | some condition => .filter condition policy (.scan (.ofTargets c policy table))

theorem QueryTree.fresh_targets (c : Catalog) (policy : ConflictPolicy) (table : TableId)
    (filter : Option Expr) : (targets c policy table filter).Fresh := by
  cases filter <;> rfl

private theorem create_ofTargets (c : Catalog) (policy : ConflictPolicy) (table : TableId) :
    TableScan.create c table (List.range (c.table table).schema.width) .write [] policy =
      .ok (.ofTargets c policy table) := by
  have hnames : (List.range (c.table table).schema.width).mapM (fun i =>
      (Except.ok ((c.table table).schema.cellName ((c.table table).schema.columns[i]?.getD default)) :
        Except PlanError CellName)) =
      .ok ((c.table table).schema.columns.map (c.table table).schema.cellName) := by
    refine (List.mapM_pure (m := Except PlanError)).trans (congrArg Except.ok ?_)
    apply List.ext_getElem?
    intro i
    rw [List.getElem?_map, List.getElem?_map]
    by_cases hi : i < (c.table table).schema.columns.length
    · rw [List.getElem?_range (by exact hi)]
      simp [List.getElem?_eq_getElem hi]
    · rw [List.getElem?_eq_none (by simpa [TableSchema.width] using hi),
        List.getElem?_eq_none (by simpa using hi)]
      rfl
  rw [TableScan.create, mapM_congr (g := fun i => .ok ((c.table table).schema.cellName
    ((c.table table).schema.columns[i]?.getD default)))]
  · rw [hnames]
    rfl
  · intro i hi
    have hlt : i < (c.table table).schema.columns.length := List.mem_range.mp hi
    simp only [List.getElem?_eq_getElem hlt, Option.getD_some]
    rfl

namespace Plan

variable {c : Catalog} {policy : ConflictPolicy} {table : TableId} {filter : Option Expr}

private theorem toOperator_predicate {condition : Expr} (h : condition.isCondition = true)
    (op : Operator) : (PlanNode.predicate condition).toOperator c policy [op] =
      .ok (.predicate condition policy [op]) := by
  simp only [PlanNode.toOperator, PlanNode.checkConditions, List.find?_cons, h, Bool.not_true,
    List.find?_nil]
  rfl

private theorem toOperator_targets : (PlanNode.tableGet table
    (List.range (c.table table).schema.width) .write []).toOperator c policy [] =
      .ok (.tableScan (.ofTargets c policy table)) := by
  simp only [PlanNode.toOperator, PlanNode.checkConditions, List.find?_nil, create_ofTargets]
  rfl

theorem lower_writeScan {extra : List Expr} {p : Plan} (h : writeScan c table filter extra = .ok p) :
    p.lower c policy = .ok (QueryTree.targets c policy table filter).operator := by
  unfold writeScan at h
  obtain ⟨_, _, h⟩ := bind_eq_ok.mp h
  cases filter with
  | none =>
    cases h
    exact toOperator_targets
  | some condition =>
    obtain ⟨_, hcheck, h⟩ := bind_eq_ok.mp h
    cases h
    have hcondition := Expr.isCondition_of_check hcheck
    have hscan : (leaf c (.tableGet table (List.range (c.table table).schema.width) .write [])).lower
        c policy = .ok (.tableScan (.ofTargets c policy table)) := toOperator_targets
    rw [filtered, build, lower_over, hscan]
    exact toOperator_predicate (c := c) hcondition _

theorem checkAssignment_eq_ok {s : TableSchema} {a : Assignment} {target : Nat × Expr}
    (h : checkAssignment s a = .ok target) :
    s.columnIndex? a.field = some target.1 ∧ target.2 = a.value := by
  unfold checkAssignment at h
  split at h
  · cases h
  · rename_i k hk
    simp only at h
    split at h
    · cases h
      exact ⟨hk, rfl⟩
    · cases h

end Plan

namespace Session

variable {s : Session} {c : Catalog} {op : Operator}

theorem plan_compute (exprs : List Expr) : s.plan c (.compute exprs) = .ok (.compute exprs {}) := rfl

theorem plan_insert (table : TableId) (records : List (List Value)) :
    s.plan c (.insert table records) = .ok (.insert table records none) := rfl

/-- An explanation is planned if its statement is, over the operators of the statement. -/
theorem plan_explain_eq (stmt : Statement) :
    s.plan c (.explain stmt) = (s.plan c stmt).map fun input => .explain input {} := by
  rw [plan, Plan.ofStatement, plan]
  cases Plan.ofStatement c s.options.planner stmt with
  | error e => rfl
  | ok p =>
    simp only [bind, Except.bind, pure, Except.pure, Plan.build]
    rw [Plan.lower_over]
    cases p.lower c s.options.policy <;> rfl

theorem plan_explain {stmt : Statement} (h : s.plan c (.explain stmt) = .ok op) :
    ∃ input, op = .explain input {} := by
  rw [plan_explain_eq] at h
  cases hop : s.plan c stmt with
  | error e =>
    rw [hop] at h
    cases h
  | ok input =>
    rw [hop] at h
    cases h
    exact ⟨input, rfl⟩

theorem plan_select {query : Select} (h : s.plan c (.select query) = .ok op) :
    ∃ q : QueryTree, op = q.operator ∧ q.Fresh ∧ q.ReadOnly := by
  rw [plan, Plan.ofStatement] at h
  cases hplan : Plan.ofSelect c s.options.planner query with
  | error e =>
    rw [hplan] at h
    cases h
  | ok p =>
    rw [hplan] at h
    simp only at h
    cases hop : p.lower c s.options.policy with
    | error e =>
      rw [hop] at h
      cases h
    | ok op' =>
      rw [hop] at h
      cases h
      obtain ⟨q, hq, hfresh, hreads⟩ := Plan.lower_reads (Plan.reads_ofSelect query hplan) hop
      exact ⟨q, hq.symm, hfresh, hreads⟩

theorem plan_select_eq {query : Select} {p : Plan}
    (h : Plan.ofSelect c s.options.planner query = .ok p) :
    s.plan c (.select query) =
      ((p.tree c s.options.policy).map QueryTree.operator).mapError .plan := by
  simp only [plan, Plan.ofStatement, h, Plan.lower_eq_tree c _ (Plan.reads_ofSelect query h)]

theorem plan_delete (table : TableId) (filter : Option Expr) :
    s.plan c (.delete table filter) =
      match Plan.writeScan c table filter [] with
      | .error e => .error (.plan e)
      | .ok _ =>
        .ok (.delete table (QueryTree.targets c s.options.policy table filter).operator none) := by
  rw [plan, Plan.ofStatement]
  cases hscan : Plan.writeScan c table filter [] with
  | error e => rfl
  | ok p =>
    simp only [bind, Except.bind, pure, Except.pure, Plan.build]
    rw [Plan.lower_over, Plan.lower_writeScan hscan]
    rfl

/-- The columns that an UPDATE sets, by index, if its assignments and its condition are accepted. -/
def updateTargets (c : Catalog) (table : TableId) (sets : List Assignment) (filter : Option Expr) :
    Except PlanError (List (Nat × Expr)) := do
  let targets ← sets.mapM (Plan.checkAssignment (c.table table).schema)
  let _ ← Plan.writeScan c table filter (sets.map (·.value))
  pure targets

/-- An UPDATE sets columns that its table has, to the values that its assignments give. -/
theorem mem_updateTargets {table : TableId} {sets : List Assignment} {filter : Option Expr}
    {targets : List (Nat × Expr)} (h : updateTargets c table sets filter = .ok targets) :
    ∀ target ∈ targets, target.1 < (c.table table).schema.width ∧ ∃ a ∈ sets, target.2 = a.value := by
  obtain ⟨targets', hsets, h⟩ := bind_eq_ok.mp h
  obtain ⟨_, _, h⟩ := bind_eq_ok.mp h
  cases h
  intro target htarget
  obtain ⟨a, ha, hchecked⟩ := mem_of_mapM hsets htarget
  obtain ⟨hcolumn, hvalue⟩ := Plan.checkAssignment_eq_ok hchecked
  obtain ⟨hlt, _⟩ := List.findIdx?_eq_some_iff_getElem.mp hcolumn
  exact ⟨hlt, a, ha, hvalue⟩

theorem plan_update (table : TableId) (sets : List Assignment) (filter : Option Expr) :
    s.plan c (.update table sets filter) =
      match updateTargets c table sets filter with
      | .error e => .error (.plan e)
      | .ok targets =>
        .ok (.update table targets (QueryTree.targets c s.options.policy table filter).operator
          none) := by
  rw [plan, Plan.ofStatement, updateTargets]
  cases sets.mapM (Plan.checkAssignment (c.table table).schema) with
  | error e => rfl
  | ok targets =>
    simp only [bind, Except.bind, pure, Except.pure]
    cases hscan : Plan.writeScan c table filter (sets.map (·.value)) with
    | error e => rfl
    | ok p =>
      simp only [Plan.build]
      rw [Plan.lower_over, Plan.lower_writeScan hscan]
      rfl

theorem eq_of_plan_update {table : TableId} {sets : List Assignment} {filter : Option Expr}
    (hop : s.plan c (.update table sets filter) = .ok op) :
    ∃ targets, updateTargets c table sets filter = .ok targets ∧ op = .update table targets
      (QueryTree.targets c s.options.policy table filter).operator none := by
  rw [plan_update] at hop
  split at hop
  · cases hop
  · exact ⟨_, ‹_›, (Except.ok.inj hop).symm⟩

end Session

end SnapshotSql
