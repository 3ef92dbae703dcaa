import SnapshotSql.Proofs.Query.Texts
import SnapshotSql.Proofs.Session.System
/-! # Lines of explanations -/

namespace SnapshotSql

open Text

theorem Operator.explainLines_ne_nil (c : Catalog) (op : Operator) : op.explainLines c ≠ [] := by
  rw [explainLines, lines_inputs]
  exact List.cons_ne_nil _ _

namespace Plan

variable {c : Catalog} {policy : ConflictPolicy} {p : Plan} {op : Operator}

theorem length_explainLines (h : p.lower c policy = .ok op) :
    (op.explainLines c).length = p.nodes.length := by
  rw [← nodes_outline 0 p, List.length_map, (shownBy_lines 0 h).length_eq]
  rfl

/-- A plan takes as many lines as it has nodes, and one more for each line break in the texts it shows. -/
theorem length_lines_explain (h : p.lower c policy = .ok op) :
    (Text.lines (String.intercalate "\n" (op.explainLines c))).length =
      p.nodes.length + breaksIn (p.texts c) := by
  rw [lines_intercalate (op.explainLines_ne_nil c), length_flatMap_lines, length_explainLines h,
    breaksIn_explainLines h]

end Plan

namespace Session

variable {s : Session} {db : Database} {stmt : Statement} {op : Operator}

theorem plan_eq_ok {c : Catalog} : s.plan c stmt = .ok op ↔
    ∃ p, Plan.ofStatement c s.options.planner stmt = .ok p ∧ p.lower c s.options.policy = .ok op := by
  rw [plan]
  cases Plan.ofStatement c s.options.planner stmt with
  | error e => simp
  | ok p => simp [mapError_eq_ok]

theorem result_explain (h : s.plan db.catalog stmt = .ok op) :
    (s.execute (.explain stmt) db).result = .ok (explained db.catalog op) := by
  have hplan : s.plan db.catalog (.explain stmt) = .ok (.explain op {}) := by
    rw [plan_explain_eq, h]
    rfl
  have hexecute : s.execute (.explain stmt) db = s.run (.explain stmt) (.explain op {}) db := by
    simp only [execute, hplan]
  rw [hexecute]
  cases hheld : s.held with
  | some tx =>
    rw [run_held (t := tx.1) hheld]
    exact Turn.answer_of_outcome (drive_explain stmt op)
  | none =>
    have hready : s.Ready db := by
      intro t origin ht
      rw [hheld] at ht
      cases ht
    obtain ⟨t, db', hentered, hactive, hcatalog⟩ := exists_entered hready
    have houtcome : (drive (.explain stmt) (.explain op {}) t db').outcome =
        (.ok (explained db.catalog op), db') := by
      rw [drive_explain, hcatalog]
    rw [← Turn.db_of_outcome houtcome] at hactive
    rw [result_run hentered hactive, Turn.answer_of_outcome houtcome]

/-- EXPLAIN of a statement that is planned answers with one text. It consists of what the nodes of the plan
are shown by, and has a line more than there are nodes for each line break in the names and text literals
that are shown. So each node has a line of its own if and only if no name and no text literal in the
statement has a line break. -/
theorem lines_explain (h : s.plan db.catalog stmt = .ok op) : ∃ p text,
    Plan.ofStatement db.catalog s.options.planner stmt = .ok p ∧ p.CarriedOutBy op ∧
    (s.execute (.explain stmt) db).result =
      .ok (.rows { columns := ["Query Plan"], rows := [[.text text]] }) ∧
    List.Forall₂ (Plan.ShownBy db.catalog s.options.policy) (p.outline 0) (op.explainLines db.catalog) ∧
    lines text = (op.explainLines db.catalog).flatMap lines ∧
    (lines text).length = p.nodes.length + breaksIn (p.texts db.catalog) ∧
    ((lines text).length = p.nodes.length ↔ ∀ t ∈ stmt.texts db.catalog, '\n' ∉ t.toList) ∧
    (lines text = op.explainLines db.catalog ↔ ∀ t ∈ stmt.texts db.catalog, '\n' ∉ t.toList) := by
  obtain ⟨p, hp, hop⟩ := plan_eq_ok.mp h
  have hlines := lines_intercalate (op.explainLines_ne_nil db.catalog)
  have hlength := Plan.length_lines_explain hop
  have hbreaks : breaksIn (p.texts db.catalog) = 0 ↔ ∀ t ∈ stmt.texts db.catalog, '\n' ∉ t.toList := by
    rw [breaksIn_eq_zero]
    simp only [Plan.hasTexts_ofStatement hp _]
  refine ⟨p, _, hp, Plan.carriedOutBy_lower hop, result_explain h, Plan.shownBy_lines 0 hop, hlines,
    hlength, ?_, ?_⟩
  · rw [← hbreaks, hlength]
    omega
  · rw [← hbreaks, hlines, flatMap_lines_eq_self, Plan.breaksIn_explainLines hop]

/-- A query for the column of a table and a text literal beside it. -/
def selectNoted (note : String) : Statement :=
  .select {
    items := [⟨.field ⟨"t", "a", .integer⟩, none⟩, ⟨.literal (.text note), none⟩]
    sources := [⟨.table ⟨0⟩, none⟩], filter := none, groupBy := [], having := none, orderBy := [] }

theorem lines_explain_plainNote : ∃ op text,
    plan {} Plan.oneColumn (selectNoted "x") = .ok op ∧
    (execute {} (.explain (selectNoted "x")) { catalog := Plan.oneColumn }).result =
      .ok (.rows { columns := ["Query Plan"], rows := [[.text text]] }) ∧
    lines text = ["PROJECT(t.a, 'x')", "└─TABLE_SCAN(t)"] := by
  obtain ⟨p, text, _, _, hresult, _, _, _, _, hlines⟩ :=
    @lines_explain {} { catalog := Plan.oneColumn } (selectNoted "x") _ rfl
  exact ⟨_, text, rfl, hresult, (hlines.mpr (by decide)).trans rfl⟩

/-- A plan of two nodes takes three lines, because the text literal has a line break. -/
theorem lines_explain_brokenNote : ∃ p text,
    Plan.ofStatement Plan.oneColumn {} (selectNoted "x\ny") = .ok p ∧ p.nodes.length = 2 ∧
    (execute {} (.explain (selectNoted "x\ny")) { catalog := Plan.oneColumn }).result =
      .ok (.rows { columns := ["Query Plan"], rows := [[.text text]] }) ∧
    lines text = ["PROJECT(t.a, 'x", "y')", "└─TABLE_SCAN(t)"] := by
  refine ⟨_, _, rfl, rfl, result_explain rfl, ?_⟩
  rw [lines_intercalate (Operator.explainLines_ne_nil _ _), funext lines_eq]
  rfl

end Session

end SnapshotSql
