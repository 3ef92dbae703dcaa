import SnapshotSql.Proofs.Query.Drained
import SnapshotSql.Proofs.Query.Quiet
/-! # Conditions inside a scan and above it -/

namespace SnapshotSql

theorem RowView.holds_all (view : RowView) (es : List Expr) :
    view.holds (.junction .all es) = view.holdsAll es := by
  have hall : ((.all : Junction) == .any) = false := rfl
  have hjunction : ∀ es, view.holds (.junction .all es) =
      (Expr.evalUntil view.find false es).map (!·) := by
    intro es
    rw [holds, Expr.holds, Expr.eval, hall]
    cases Expr.evalUntil view.find false es with
    | error e => rfl
    | ok stopped => cases stopped <;> rfl
  induction es with
  | nil => rfl
  | cons e es ih =>
    rw [hjunction] at ih ⊢
    rw [Expr.evalUntil, holdsAll, holds, Expr.holds, ← ih]
    cases e.eval view.find with
    | error x => rfl
    | ok a =>
      simp only [bind, Except.bind, pure, Except.pure]
      cases a.truth <;> rfl

/-- What a caller gets from a call: the step and the row to be read after it, or a failure. -/
def Turn.reply (turn : Turn Step) : Except ExecError (Step × Except ExecError RowView) :=
  turn.answer.map (·, turn.op.current)

namespace Operator

/-- A call on an opened operator: what others do to the database before it, and the enclosing row. -/
structure Call where
  meanwhile : Database → Database
  env : RowView

/-- What one call after the other replies, and the databases that the calls leave. -/
def replies (op : Operator) (db : Database) :
    List Call → List (Except ExecError (Step × Except ExecError RowView) × Database)
  | [] => []
  | call :: calls =>
    let turn := op.next call.env (call.meanwhile db)
    (turn.reply, turn.db) :: turn.op.replies turn.db calls

end Operator

namespace TableScan

def bare (s : TableScan) (current : Option Version) : TableScan :=
  { s with predicates := [], current }

/-- A filter that tests the conditions of a scan above the scan without them. -/
def filterAbove (s : TableScan) (current : Option Version) : Operator :=
  .predicate (.junction .all s.predicates) s.policy [.tableScan (s.bare current)]

/-- The first operator is a scan, and the second one the filter above it at the same place. -/
inductive InStep : Operator → Operator → Prop
  | at (s : TableScan) (current : Option Version) : InStep (.tableScan s) (s.filterAbove current)

/-- Two calls reply alike, leave the same database and are in step afterwards. -/
structure SameCall (a b : Turn Step) : Prop where
  reply : a.reply = b.reply
  db : a.db = b.db
  op : InStep a.op b.op

variable {s : TableScan} {current : Option Version} {t : TxHandle} {snapshot : Snapshot}
  {env : RowView} {versions : Array Version} {v : Version} {db db' : Database} {n : Nat}

/-! ## One version -/

theorem catalog_visibility {access : Access} {seen : Visibility}
    (h : (t.visibility snapshot access v).run db = .ok seen db') : db'.catalog = db.catalog := by
  have hquiet : Action.Quiet (fun _ => True) (t.visibility snapshot access v) :=
    Action.quiet_bind t.quiet_start fun _ _ _ => ⟨trivial, rfl⟩
  have hrun := hquiet db
  rw [h] at hrun
  exact hrun.2

theorem nextIn_bare (n : Nat) (env : RowView) (current : Option Version)
    (hopened : s.opened = some (t, snapshot)) (hversions : (db.catalog.table s.table).versions = versions) :
    (Operator.tableScan (s.bare current)).nextIn (n + 1) env db =
      seek t snapshot env versions (versions.size - s.cursor) (s.bare current) db := by
  rw [Operator.nextIn, next]
  simp only [bare, hopened, hversions]

/-- What a scan without conditions does with a version. It stops on all that are not invisible. -/
theorem seek_bare {m : Nat} (hv : versions[s.cursor]? = some v) :
    seek t snapshot env versions (m + 1) (s.bare current) db =
      let after : TableScan := { s with cursor := s.cursor + 1 }
      match (t.visibility snapshot s.access v).run db with
      | .error e db => .fail (.transaction e) (.tableScan (after.bare current)) db
      | .ok .invisible db => seek t snapshot env versions m (after.bare current) db
      | .ok seen db => .ok (stepOf seen) (.tableScan (after.bare (some v))) db := by
  have hat : versions[(s.bare current).cursor]? = some v := hv
  rw [seek, hat]
  dsimp only [bare]
  cases (t.visibility snapshot s.access v).run db with
  | error e db' => rfl
  | ok seen db' => cases seen <;> rfl

section

variable {condition : Expr} {policy : ConflictPolicy} {input input' : Operator} {e : ExecError}
  {seen : Visibility}

theorem nextIn_filter_congr (h : input.nextIn n env db = input'.nextIn n env db') :
    (Operator.predicate condition policy [input]).nextIn (n + 1) env db =
      (Operator.predicate condition policy [input']).nextIn (n + 1) env db' := by
  rw [Operator.nextIn, Operator.nextIn, h]

theorem nextIn_filter_fail (h : input.nextIn n env db = .fail e input' db') :
    (Operator.predicate condition policy [input]).nextIn (n + 1) env db =
      .fail e (.predicate condition policy [input']) db' := by
  rw [Operator.nextIn, h]
  rfl

theorem nextIn_filter_done (h : input.nextIn n env db = .ok .done input' db') :
    (Operator.predicate condition policy [input]).nextIn (n + 1) env db =
      .ok .done (.predicate condition policy [input']) db' := by
  rw [Operator.nextIn, h]
  rfl

theorem nextIn_filter_row {view : RowView}
    (h : input.nextIn n env db = .ok (stepOf seen) input' db') (hview : input'.current = .ok view) :
    (Operator.predicate condition policy [input]).nextIn (n + 1) env db =
      match (RowView.joined view env).holds condition with
      | .error e => .fail e (.predicate condition policy [input']) db'
      | .ok matched =>
        if matched || surfaces policy (stepOf seen) then
          .ok (stepOf seen) (.predicate condition policy [input']) db'
        else (Operator.predicate condition policy [input']).nextIn n env db' := by
  rw [Operator.nextIn, h]
  cases seen <;> simp only [stepOf, Turn.ok, hview, Except.bind] <;> rfl

end

private theorem sameCall_seen {seen : Visibility} {rest restAbove : Turn Step}
    (h : SameCall rest restAbove) :
    SameCall
      (match s.accepts env v with
      | .error e => .fail e (.tableScan s) db
      | .ok accepted =>
        if accepted || surfaces s.policy (stepOf seen) then
          .ok (stepOf seen) (.tableScan { s with current := some v }) db
        else rest)
      (match (RowView.joined (s.view v) env).holdsAll s.predicates with
      | .error e => .fail e (s.filterAbove (some v)) db
      | .ok matched =>
        if matched || surfaces s.policy (stepOf seen) then
          .ok (stepOf seen) (s.filterAbove (some v)) db
        else restAbove) := by
  rw [accepts]
  cases (RowView.joined (s.view v) env).holdsAll s.predicates with
  | error e => exact ⟨rfl, rfl, .at s (some v)⟩
  | ok accepted =>
    dsimp only
    split
    · exact ⟨rfl, rfl, .at { s with current := some v } (some v)⟩
    · exact h

theorem sameCall_seek {m : Nat} (current : Option Version) (hopened : s.opened = some (t, snapshot))
    (hversions : (db.catalog.table s.table).versions = versions)
    (hm : versions.size - s.cursor = m) (hn : m ≤ n) :
    SameCall (seek t snapshot env versions m s db)
      ((s.filterAbove current).nextIn (n + 2) env db) := by
  -- With every version that either of them looks at, fewer are left.
  induction m generalizing s db current n with
  | zero =>
    have hdone := nextIn_bare n env current hopened hversions
    rw [hm] at hdone
    rw [filterAbove, nextIn_filter_done hdone]
    exact ⟨rfl, rfl, .at { s with current := none } none⟩
  | succ m ih =>
    have hlt : s.cursor < versions.size := by omega
    obtain ⟨v, hv⟩ : ∃ v, versions[s.cursor]? = some v := ⟨_, Array.getElem?_eq_getElem hlt⟩
    let after : TableScan := { s with cursor := s.cursor + 1 }
    have hafter : versions.size - after.cursor = m := by
      show versions.size - (s.cursor + 1) = m
      omega
    have hinput := nextIn_bare n env current hopened hversions
    rw [hm, seek_bare hv] at hinput
    rw [seek, hv]
    cases hrun : (t.visibility snapshot s.access v).run db with
    | error e db' =>
      rw [hrun] at hinput
      rw [filterAbove, nextIn_filter_fail hinput]
      simp only [hrun]
      exact ⟨rfl, rfl, .at after current⟩
    | ok seen db' =>
      have hversions' : (db'.catalog.table after.table).versions = versions := by
        rw [catalog_visibility hrun]
        exact hversions
      rw [hrun] at hinput
      simp only [hrun]
      cases seen with
      | invisible =>
        have hsame : (s.filterAbove current).nextIn (n + 2) env db =
            (after.filterAbove current).nextIn (n + 2) env db' := by
          apply nextIn_filter_congr
          rw [hinput, nextIn_bare n env current (s := after) hopened hversions', hafter]
        rw [hsame]
        exact ih current hopened hversions' hafter (Nat.le_of_succ_le hn)
      | visible | contested =>
        obtain ⟨k, rfl⟩ := Nat.exists_eq_add_of_le' (Nat.one_le_of_lt hn)
        have hrest := ih (s := after) (some v) hopened hversions' hafter
          (Nat.le_of_succ_le_succ hn)
        rw [filterAbove, nextIn_filter_row hinput rfl, RowView.holds_all]
        exact sameCall_seen hrest

/-! ## Calls -/

/-- The steps that the filter is granted suffice for all versions of the table. -/
theorem steps_filterAbove (s : TableScan) (current : Option Version) (c : Catalog) :
    ∃ n, (s.filterAbove current).steps c = n + 2 ∧ (c.table s.table).versions.size ≤ n := by
  have hsteps : (s.filterAbove current).steps c =
      2 * (c.table s.table).versions.size + 1 + 3 + 1 + Operator.spareSteps := rfl
  refine ⟨_, hsteps.trans (?_ : _ = 2 * (c.table s.table).versions.size + 3 +
    Operator.spareSteps + 2), ?_⟩ <;> omega

theorem sameCall_next (s : TableScan) (current : Option Version) (env : RowView) (db : Database) :
    SameCall ((Operator.tableScan s).next env db) ((s.filterAbove current).next env db) := by
  obtain ⟨n, hn, hsize⟩ := steps_filterAbove s current db.catalog
  have hscan : (Operator.tableScan s).next env db = s.next env db :=
    Operator.next_of_nextIn fun n => by rw [Operator.nextIn]
  rw [hscan, Operator.next, hn, next]
  cases hopened : s.opened with
  | none =>
    have hclosed : (Operator.tableScan (s.bare current)).nextIn (n + 1) env db =
        .fail (.internal (.notOpen .tableScan)) (.tableScan (s.bare current)) db := by
      rw [Operator.nextIn, next]
      simp only [bare, hopened]
    rw [filterAbove, nextIn_filter_fail hclosed]
    exact ⟨rfl, rfl, .at s current⟩
  | some bound =>
    obtain ⟨t, snapshot⟩ := bound
    exact sameCall_seek current hopened rfl rfl ((Nat.sub_le _ _).trans hsize)

theorem replies_inStep {scan filter : Operator} (h : InStep scan filter) (db : Database)
    (calls : List Operator.Call) : scan.replies db calls = filter.replies db calls := by
  induction calls generalizing scan filter db with
  | nil => rfl
  | cons call calls ih =>
    obtain ⟨s, current⟩ := h
    obtain ⟨hreply, hdb, hop⟩ := sameCall_next s current call.env (call.meanwhile db)
    rw [Operator.replies, Operator.replies, hreply, hdb, ih hop]

/-- Opened in the same database, a scan and the filter above it succeed or fail alike, and reply alike to
every call from then on, whatever happens to the database between calls and whatever the enclosing rows
are: with the same step and the same row, or with the same failure. -/
theorem replies_filterAbove (s : TableScan) (t : TxHandle) (db : Database)
    (calls : List Operator.Call) :
    let scan := (Operator.tableScan s).openUnder t db
    let filter := (s.filterAbove s.current).openUnder t db
    scan.answer = filter.answer ∧ scan.db = filter.db ∧
      scan.op.replies scan.db calls = filter.op.replies filter.db calls := by
  obtain ⟨n, hn, -⟩ := steps_filterAbove s s.current db.catalog
  have hscan : (Operator.tableScan s).steps db.catalog = Operator.spareSteps + 1 :=
    Nat.add_comm 1 Operator.spareSteps
  rw [Operator.openUnder, Operator.openUnder, hn, hscan, filterAbove, Operator.openIn,
    Operator.openIn, Operator.openIn]
  cases t.readSnapshot.run db with
  | error e db' => exact ⟨rfl, rfl, replies_inStep (.at s s.current) db' calls⟩
  | ok snapshot db' =>
    exact ⟨rfl, rfl, replies_inStep (.at (s.rewind t snapshot) none) db' calls⟩

end TableScan

end SnapshotSql
