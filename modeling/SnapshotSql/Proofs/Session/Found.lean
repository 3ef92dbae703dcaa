import SnapshotSql.Proofs.Query.Resolved
import SnapshotSql.Proofs.Session.Drive
import SnapshotSql.Proofs.Session.Planned
/-! # Running what was planned finds its names -/

namespace SnapshotSql

/-- The calls of a query and its sub-queries are made where there are groups, and its conjuncts are pushed
to the sources that they read. A statement that writes makes no calls. -/
def Statement.Traceable (c : Catalog) : Statement → Prop
  | .select query => ∀ s ∈ query.queries, s.Traceable c
  | .delete _ filter => ∀ e ∈ filter.toList, e.hasAggregate = false
  | .update _ sets filter => ∀ e ∈ filter.toList ++ sets.map (·.value), e.hasAggregate = false
  | _ => False

def TableSchema.Offers (s : TableSchema) (ref : FieldRef) : Prop :=
  ref.table = s.name ∧ ∃ column, s.columnIndex? ref.field = some column

/-! ## Rows that are taken in -/

/-- Failures of these kinds include what taking in rows fails with, save for empty lookups. -/
structure ExecError.Collecting (P : ExecError → Prop) : Prop where
  computing : ∀ e, ExecError.Computing e → P e
  conflict : ∀ table rid, P (.transaction (.conflict table rid))
  internal : ∀ fault, P (.internal fault)

private theorem ExecError.collecting_found : ExecError.Collecting ExecError.Found where
  computing := found_of_computing
  conflict table rid := by rintro name ⟨⟩
  internal fault := by rintro name ⟨⟩

namespace Operator

variable {P : ExecError → Prop} {N : CellName → Prop} {v : RowView} {table : TableId}
  {kind : OperatorKind} {db : Database}

private theorem raises_changeTarget (hP : ExecError.Collecting P) (step : Step) :
    Raises P (changeTarget table kind db v step) := by
  unfold changeTarget
  split
  · exact .error (hP.internal _)
  · split
    · exact .error (hP.conflict _ _)
    · exact .ok _

private theorem raises_assign (hP : ExecError.Collecting P) {assignments : List (Nat × Expr)}
    (hv : v.Supplies P N) (h : ∀ a ∈ assignments, a.2.Within N) (values : List Value) :
    Raises P (assign v assignments values) := by
  induction assignments generalizing values with
  | nil => exact .ok values
  | cons a rest ih =>
    rw [List.forall_mem_cons] at h
    refine (hv.eval hP.computing h.1).bind fun value _ => ?_
    split
    · exact ih h.2 _
    · exact .error (hP.internal _)

private theorem raises_collectTarget (hP : ExecError.Collecting P) (rids : Array RowId) (step : Step) :
    Raises P (collectTarget table kind db rids v step) :=
  (raises_changeTarget hP step).bind fun _ _ => .ok _

theorem raises_collectChange (hP : ExecError.Collecting P) {assignments : List (Nat × Expr)}
    (hv : v.Supplies P N) (h : ∀ a ∈ assignments, a.2.Within N)
    (changes : Array (RowId × List Value)) (step : Step) :
    Raises P (collectChange table assignments kind db changes v step) :=
  (raises_changeTarget hP step).bind fun _ _ => hv.values.bind fun values _ =>
    (raises_assign hP hv h values).bind fun _ _ => .ok _

end Operator

private theorem Session.raises_collectValues {N : CellName → Prop} {v : RowView}
    (hv : v.Supplies ExecError.Found N) (stmt : Statement) (db : Database)
    (rows : Array (List Value)) (step : Step) :
    Raises ExecError.Found (collectValues stmt db rows v step) := by
  refine (hv.copy ExecError.found_of_computing).bind fun row _ => ?_
  split
  · split
    · apply Raises.error
      rintro name ⟨⟩
    · apply Raises.error
      rintro name ⟨⟩
  · exact .ok _

namespace QueryTree

variable {R : Reader} {q : QueryTree} {c : Catalog} {table : TableId} {filter : Option Expr}

theorem raises_readAll {σ : Type} {V : RowView → Prop} {P : ExecError → Prop}
    {f : σ → RowView → Step → Except ExecError σ} (hq : q.Yields R V P)
    (hf : ∀ acc v step, V v → Raises P (f acc v step)) {acc : σ} :
    Raises P (q.readAll R f acc) := by
  refine hq.opens.bind fun s hs => ?_
  exact (Stream.each_fold (I := fun _ => True) (fun acc v step _ hv => ⟨hf acc v step hv, fun _ _ =>
    trivial⟩) (hq.rows s hs) trivial).1

private theorem supplies_targets (policy : ConflictPolicy)
    (hfilter : ∀ e ∈ filter.toList, e.Within (Expr.Names (c.table table).schema.Offers)) :
    (targets c policy table filter).Supplies R (Expr.Names (c.table table).schema.Offers) := by
  have hscan : (scan (.ofTargets c policy table)).Supplies R
      (Expr.Names (c.table table).schema.Offers) := by
    have hpredicates : ∀ e ∈ (TableScan.ofTargets c policy table).predicates,
        e.Within (Expr.Names (c.table table).schema.Offers) := fun e he => absurd he List.not_mem_nil
    apply supplies_scan _ hpredicates
    rintro name ⟨ref, ⟨htable, i, hi⟩, rfl⟩
    obtain ⟨column, hcolumn, hname⟩ := TableSchema.columnIndex?_name hi
    refine ⟨(c.table table).schema.cellName column, ?_, ?_⟩
    · rw [List.take_of_length_le (by simp [TableScan.ofTargets, TableSchema.width])]
      exact List.mem_map_of_mem (List.mem_of_getElem? hcolumn)
    · simp [TableSchema.cellName, CellName.answers, CellName.qualified, hname, htable]
  cases filter with
  | none => exact hscan
  | some condition => exact supplies_filter hscan (hfilter condition (by simp))

end QueryTree

private theorem Plan.offers_writeScan {c : Catalog} {table : TableId} {filter : Option Expr}
    {extra : List Expr} {p : Plan} (h : writeScan c table filter extra = .ok p) :
    ∀ e ∈ filter.toList ++ extra, ∀ ref ∈ e.fields, (c.table table).schema.Offers ref := by
  obtain ⟨needs, hneeds, _⟩ := bind_eq_ok.mp h
  have hstep : ∀ (needs : Needs) (e : Expr) (needs' : Needs), needs.length = 1 →
      e.resolve [⟨(c.table table).schema.name, .columns (c.table table).schema⟩] needs = .ok needs' →
      needs'.length = 1 ∧ (∀ ref ∈ e.fields, (c.table table).schema.Offers ref) ∧
        ∀ e' : Expr, (∀ ref ∈ e'.fields, (c.table table).schema.Offers ref) →
          ∀ ref ∈ e'.fields, (c.table table).schema.Offers ref := by
    intro needs e needs' hlength he
    obtain ⟨hlength', hfields, _⟩ := Expr.offers_resolve List.prefix_rfl hlength he
    refine ⟨hlength', fun ref href => ?_, fun _ he' => he'⟩
    obtain ⟨i, hi, hfirst, entry, hentry, hoffer⟩ := hfields ref href
    obtain rfl : i = 0 := Nat.lt_one_iff.mp hi
    cases hentry
    obtain ⟨column, _, hcolumn, _⟩ := hoffer
    obtain ⟨_, hname, _⟩ := List.findIdx?_eq_some_iff_getElem.mp hfirst
    exact ⟨(eq_of_beq hname).symm, column, hcolumn⟩
  exact (foldlM_establishes hstep rfl hneeds).2.1

/-! ## Statements -/

namespace Session

variable {c : Catalog} {db : Database} {t : TxHandle} {policy : ConflictPolicy} {q : QueryTree}

/-- A statement that reads rows and then writes fails like the reading or for its transaction. -/
private theorem raises_readThen {σ : Type} {f : σ → RowView → Step → Except ExecError σ} {acc : σ}
    {count : σ → Nat} {action : σ → Action TxError Unit}
    (h : Raises ExecError.Found (q.readAll (db.reader t) f acc)) :
    Raises ExecError.Found
      (q.readThen t db f acc fun a => modifying (count a) (action a)).1 := by
  unfold QueryTree.readThen
  cases hread : q.readAll (db.reader t) f acc with
  | error e => exact .error (h e hread)
  | ok a =>
    simp only [modifying]
    split
    · exact .ok _
    · apply Raises.error
      rintro name ⟨⟩

private theorem found_select {options : PlannerOptions} {query : Select} {p : Plan} {op : Operator}
    (hplan : Plan.ofSelect c options query = .ok p) (hlower : p.lower c policy = .ok op)
    (hquery : ∀ s ∈ query.queries, s.Traceable c) (ht : db.Active t) :
    Raises ExecError.Found (drive (.select query) op t db).answer := by
  have hreads := Plan.reads_ofSelect query hplan
  rw [Plan.lower_eq_tree c policy hreads] at hlower
  obtain ⟨q, hq, rfl⟩ := map_eq_ok.mp hlower
  rw [(drive_select_eq query (Plan.readOnly_tree hreads hq).1 ht).1]
  have hyields := Plan.shows_ofSelect (R := db.reader t) query hplan hquery q hq
  exact (QueryTree.raises_readAll hyields fun rows v step hv =>
    raises_collectValues hv.1 (.select query) db rows step).map

private theorem found_delete {table : TableId} {filter : Option Expr} {p : Plan}
    (hscan : Plan.writeScan c table filter [] = .ok p)
    (hcalls : ∀ e ∈ filter.toList, e.hasAggregate = false) (ht : db.Active t) :
    Raises ExecError.Found (drive (.delete table filter) (.delete table (QueryTree.targets c policy
      table filter).operator none) t db).answer := by
  have hoffers := Plan.offers_writeScan hscan
  rw [List.append_nil] at hoffers
  have hyields := QueryTree.supplies_targets (R := db.reader t) policy fun e he =>
    Expr.within_names (hcalls e he) (hoffers e he)
  rw [Turn.answer_of_outcome (drive_delete table filter (QueryTree.fresh_targets ..) ht)]
  exact raises_readThen (QueryTree.raises_readAll hyields fun rids v step _ =>
    Operator.raises_collectTarget ExecError.collecting_found rids step)

private theorem found_update {table : TableId} {sets : List Assignment} {filter : Option Expr}
    {targets : List (Nat × Expr)} {p : Plan}
    (htargets : sets.mapM (Plan.checkAssignment (c.table table).schema) = .ok targets)
    (hscan : Plan.writeScan c table filter (sets.map (·.value)) = .ok p)
    (hcalls : ∀ e ∈ filter.toList ++ sets.map (·.value), e.hasAggregate = false) (ht : db.Active t) :
    Raises ExecError.Found (drive (.update table sets filter) (.update table targets
      (QueryTree.targets c policy table filter).operator none) t db).answer := by
  have hwithin : ∀ e ∈ filter.toList ++ sets.map (·.value),
      e.Within (Expr.Names (c.table table).schema.Offers) := fun e he =>
    Expr.within_names (hcalls e he) (Plan.offers_writeScan hscan e he)
  have hvalues : ∀ target ∈ targets, target.2.Within (Expr.Names (c.table table).schema.Offers) := by
    intro target htarget
    obtain ⟨a, ha, hchecked⟩ := mem_of_mapM htargets htarget
    rw [(Plan.checkAssignment_eq_ok hchecked).2]
    exact hwithin a.value (List.mem_append_right _ (List.mem_map_of_mem ha))
  have hyields := QueryTree.supplies_targets (R := db.reader t) policy fun e he =>
    hwithin e (List.mem_append_left _ he)
  rw [Turn.answer_of_outcome (drive_update table sets filter targets (QueryTree.fresh_targets ..) ht)]
  exact raises_readThen (QueryTree.raises_readAll hyields fun changes v step hv =>
    Operator.raises_collectChange ExecError.collecting_found hv hvalues changes step)

/-- Running a traceable SELECT, DELETE or UPDATE that was planned and lowered never fails for a cell that is
not found. -/
theorem drive_found {options : PlannerOptions} {stmt : Statement} {p : Plan} {op : Operator}
    (hplan : Plan.ofStatement c options stmt = .ok p) (hlower : p.lower c policy = .ok op)
    (hstmt : stmt.Traceable c) (ht : db.Active t) (name : CellName) :
    (drive stmt op t db).answer ≠ .error (.fieldNotFound name) := by
  have hfound : Raises ExecError.Found (drive stmt op t db).answer := by
    cases stmt with
    | select query => exact found_select hplan hlower hstmt ht
    | delete table filter =>
      obtain ⟨scan, hscan, hplan⟩ := bind_eq_ok.mp hplan
      cases hplan
      rw [Plan.build, Plan.lower_over, Plan.lower_writeScan hscan] at hlower
      cases hlower
      exact found_delete hscan hstmt ht
    | update table sets filter =>
      obtain ⟨targets, htargets, hplan⟩ := bind_eq_ok.mp hplan
      obtain ⟨scan, hscan, hplan⟩ := bind_eq_ok.mp hplan
      cases hplan
      rw [Plan.build, Plan.lower_over, Plan.lower_writeScan hscan] at hlower
      cases hlower
      exact found_update htargets hscan hstmt ht
    | _ => exact hstmt.elim
  intro herror
  exact hfound _ herror name rfl

/-- A table with a committed row, and a transaction that may read it. -/
def committedRow : History :=
  [.createTable "t" [⟨"a", .integer, true⟩], .begin .readCommitted, .insertRow ⟨0⟩ ⟨0⟩ [.integer 1],
    .commit ⟨0⟩, .begin .readCommitted]

/-- `SELECT q.n, COUNT(*) FROM t, (SELECT t.a AS n FROM t) q WHERE t.a = 1 AND q.n = t.a GROUP BY q.n`. -/
def countEqual : Select where
  items := [⟨.field ⟨"q", "n", .integer⟩, none⟩, ⟨.aggregate .count none, none⟩]
  sources := [⟨.table ⟨0⟩, none⟩, ⟨.query ⟨[⟨.field ⟨"t", "a", .integer⟩, some "n"⟩],
    [⟨.table ⟨0⟩, none⟩], none, [], none, []⟩ "q", none⟩]
  filter := some (.junction .all [
    .comparison .eq (.field ⟨"t", "a", .integer⟩) (.literal (.integer 1)),
    .comparison .eq (.field ⟨"q", "n", .integer⟩) (.field ⟨"t", "a", .integer⟩)])
  groupBy := [.field ⟨"q", "n", .integer⟩]
  having := none
  orderBy := []

theorem drive_found_countEqual :
    ∃ p op, Plan.ofStatement committedRow.final.catalog {} (.select countEqual) = .ok p ∧
      p.lower committedRow.final.catalog .absorbUnmatched = .ok op ∧
      Statement.Traceable committedRow.final.catalog (.select countEqual) ∧
      committedRow.final.Active ⟨1⟩ ∧ ∀ name,
        (drive (.select countEqual) op ⟨1⟩ committedRow.final).answer ≠ .error (.fieldNotFound name) := by
  have hactive : committedRow.final.Active ⟨1⟩ := ⟨by decide, rfl⟩
  obtain ⟨p, op, hplan, hlower⟩ : ∃ p op,
      Plan.ofStatement committedRow.final.catalog {} (.select countEqual) = .ok p ∧
        p.lower committedRow.final.catalog .absorbUnmatched = .ok op := ⟨_, _, rfl, rfl⟩
  have htraceable : Statement.Traceable committedRow.final.catalog (.select countEqual) := by
    intro s hs
    simp only [countEqual, Select.queries, Select.queriesIn, List.append_nil, List.mem_cons,
      List.not_mem_nil, or_false] at hs
    rcases hs with rfl | rfl
    · constructor
      case joins => simp
      case arguments =>
        rintro call hcall arg harg
        cases List.mem_singleton.mp (show call ∈ [⟨.count, none⟩] from hcall)
        cases harg
      case texts =>
        intro call hcall other hother _
        cases List.mem_singleton.mp (show call ∈ [⟨.count, none⟩] from hcall)
        cases List.mem_singleton.mp (show other ∈ [⟨.count, none⟩] from hother)
        rfl
      case pushed =>
        intro _ e he i htarget ref href
        rcases List.mem_pair.mp he with rfl | rfl
        · cases (show some 0 = some i from htarget)
          cases List.mem_singleton.mp (show ref ∈ [⟨"t", "a", .integer⟩] from href)
          rfl
        · cases (show none = some i from htarget)
    · constructor
      case joins => simp
      case arguments => exact fun call hcall => absurd hcall List.not_mem_nil
      case texts => exact fun call hcall => absurd hcall List.not_mem_nil
      case pushed => exact fun hlength => absurd rfl hlength
  exact ⟨p, op, hplan, hlower, htraceable, hactive, drive_found hplan hlower htraceable hactive⟩

/-- `SELECT t.a FROM (SELECT t.a FROM t) t, t WHERE t.a = 1`. -/
def shadowedTable : Select where
  items := [⟨.field ⟨"t", "a", .integer⟩, none⟩]
  sources := [⟨.query ⟨[⟨.field ⟨"t", "a", .integer⟩, none⟩], [⟨.table ⟨0⟩, none⟩], none, [], none, []⟩
    "t", none⟩, ⟨.table ⟨0⟩, none⟩]
  filter := some (.comparison .eq (.field ⟨"t", "a", .integer⟩) (.literal (.integer 1)))
  groupBy := []
  having := none
  orderBy := []

/-- The query of `shadowedTable`. The scan of the table tests the condition without reading any column. -/
def shadowedQuery : QueryTree :=
  .project shadowedTable.items (.join
    (.rename "t" (.project [⟨.field ⟨"t", "a", .integer⟩, none⟩]
      (.scan ⟨⟨0⟩, [0], [.qualified "t" "a"], .read, [], .absorbUnmatched, none, 0, none⟩)))
    (.cached (.scan ⟨⟨0⟩, [], [], .read,
      [.comparison .eq (.field ⟨"t", "a", .integer⟩) (.literal (.integer 1))], .absorbUnmatched,
      none, 0, none⟩)))

theorem drive_shadowedTable :
    ∃ p op, Plan.ofStatement committedRow.final.catalog {} (.select shadowedTable) = .ok p ∧
      p.lower committedRow.final.catalog .absorbUnmatched = .ok op ∧
      committedRow.final.Active ⟨1⟩ ∧
      (drive (.select shadowedTable) op ⟨1⟩ committedRow.final).answer =
        .error (.fieldNotFound (.qualified "t" "a")) := by
  have hactive : committedRow.final.Active ⟨1⟩ := ⟨by decide, rfl⟩
  obtain ⟨p, hplan, hlower⟩ : ∃ p,
      Plan.ofStatement committedRow.final.catalog {} (.select shadowedTable) = .ok p ∧
        p.lower committedRow.final.catalog .absorbUnmatched = .ok shadowedQuery.operator := ⟨_, rfl, rfl⟩
  have hread : shadowedQuery.readAll (committedRow.final.reader ⟨1⟩)
      (collectValues (.select shadowedTable) committedRow.final) #[] =
        .error (.fieldNotFound (.qualified "t" "a")) := rfl
  refine ⟨p, _, hplan, hlower, hactive, ?_⟩
  rw [(drive_select_eq shadowedTable (q := shadowedQuery) ⟨rfl, rfl⟩ hactive).1, hread]
  rfl

end Session

end SnapshotSql
