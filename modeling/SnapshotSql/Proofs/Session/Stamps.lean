import Mathlib.Data.List.TakeWhile
import SnapshotSql.Proofs.Query.Finished
import SnapshotSql.Proofs.Query.Lookups
import SnapshotSql.Proofs.Session.Changes
/-! # What statements stamp -/

namespace SnapshotSql

def TableScan.ofColumns (policy : ConflictPolicy) (table : TableId) (columns : List Nat)
    (names : List CellName) : TableScan where
  table := table
  columns := columns
  names := names
  access := .read
  predicates := []
  policy := policy

def TableScan.ofRows (c : Catalog) (policy : ConflictPolicy) (table : TableId) : TableScan :=
  ofColumns policy table (List.range (c.table table).schema.width)
    ((c.table table).schema.columns.map (c.table table).schema.cellName)

/-- The query for the rows of a table that meet a condition. -/
def QueryTree.reading (c : Catalog) (policy : ConflictPolicy) (table : TableId) :
    Option Expr → QueryTree
  | none => .scan (.ofRows c policy table)
  | some condition => .filter condition policy (.scan (.ofRows c policy table))

namespace QueryTree

variable (c : Catalog) (policy : ConflictPolicy) (table : TableId) (filter : Option Expr)

theorem fresh_reading : (reading c policy table filter).Fresh := by
  cases filter <;> rfl

theorem readOnly_reading : (reading c policy table filter).ReadOnly := by
  cases filter <;> rfl

end QueryTree

/-- The table whose rows a statement deletes or replaces, and the condition that they meet. -/
def Statement.changes? : Statement → Option (TableId × Option Expr)
  | delete table filter | update table _ filter => some (table, filter)
  | _ => none

def Catalog.plainRow (c : Catalog) (table : TableId) (v : Version) : Row where
  names := (c.table table).schema.columns.map (c.table table).schema.cellName
  values := v.values
  rid := some v.rid

namespace Database

/-- Between two databases, a transaction has stamped a version. -/
def Stamps (db db' : Database) (t : TxHandle) (table : TableId) (rid : RowId) : Prop :=
  ¬db.StampedBy t table rid ∧ db'.StampedBy t table rid

end Database

/-! ## Rows that are read -/

namespace Row

theorem keep_map {α : Type} {f : α → Row} {test : Row → Except ExecError Bool} {met : α → Bool}
    {xs : List α} (h : ∀ x ∈ xs, test (f x) = .ok (met x)) :
    keep test (xs.map f) = .ok ((xs.filter met).map f) := by
  induction xs with
  | nil => rfl
  | cons x xs ih =>
    rw [List.forall_mem_cons] at h
    rw [List.map_cons, keep, h.1, ih h.2, List.filter_cons]
    cases met x <;> rfl

end Row

namespace Catalog

variable {c : Catalog} {table : TableId} {filter : Option Expr} {R : Reader} {v : Version}

theorem copy_fullRow (h : v.values.length = (c.table table).schema.width) :
    (c.fullRow table v).copy = .ok (c.plainRow table v) := by
  refine RowView.copy_eq_ok.mpr ⟨?_, fullRow_values h, rfl⟩
  have hcount : (c.fullRow table v).cellCount = (c.plainRow table v).names.length := by
    rw [fullRow, RowView.cellCount, List.length_range, plainRow, List.length_map, TableSchema.width]
  rw [RowView.names, hcount]
  exact RowView.mapM_cellOf_range (c.plainRow table v).names

/-- Of the versions that a query reads, those are rows whose condition is met. -/
theorem rows_reading (hwidth : ∀ v ∈ R.visible table, v.values.length = (c.table table).schema.width)
    (hmeets : ∀ v ∈ R.visible table, ∃ met, c.meets table filter v = .ok met)
    (policy : ConflictPolicy) : (QueryTree.reading c policy table filter).rows R.visible =
      .ok ((c.matching table R .read filter).map (c.plainRow table)) := by
  have hall : (QueryTree.scan (.ofRows c policy table)).rows R.visible =
      .ok ((R.visible table).map (c.plainRow table)) := by
    have hcopies : (R.visible table).mapM (fun v => ((TableScan.ofRows c policy table).view v).copy) =
        .ok ((R.visible table).map (c.plainRow table)) := by
      refine (mapM_congr fun v hv => copy_fullRow (hwidth v hv)).trans ?_
      exact List.mapM_pure (m := Except ExecError)
    rw [QueryTree.rows, show (TableScan.ofRows c policy table).table = table from rfl, hcopies]
    have hkept : Row.keep (·.holdsAll []) ((R.visible table).map (c.plainRow table)) =
        .ok (((R.visible table).filter fun _ => true).map (c.plainRow table)) :=
      Row.keep_map fun _ _ => rfl
    rw [List.filter_eq_self.mpr fun _ _ => rfl] at hkept
    exact hkept
  have hmatching : c.matching table R .read filter =
      (R.visible table).filter fun v => (c.meets table filter v).toOption = some true := by
    rw [matching, Reader.visible, List.filter_filter]
    refine List.filter_congr fun v _ => ?_
    rw [Bool.decide_and, Bool.and_comm]
  rw [hmatching]
  cases filter with
  | none =>
    rw [QueryTree.reading, hall, List.filter_eq_self.mpr]
    intro v _
    rfl
  | some condition =>
    rw [QueryTree.reading, QueryTree.rows, hall]
    refine Row.keep_map fun v hv => ?_
    obtain ⟨met, hmet⟩ := hmeets v hv
    rw [← RowView.holds_of_copy (copy_fullRow (hwidth v hv)), hmet,
      show (c.fullRow table v).holds condition = .ok met from hmet]
    cases met <;> rfl

theorem shows_fullRow (c : Catalog) (table : TableId) :
    RowView.Shows (c.table table).schema
      ((c.table table).schema.columns.map (c.table table).schema.cellName)
      (List.range (c.table table).schema.width) := by
  intro k i hk
  obtain ⟨hlt, rfl⟩ := List.getElem?_eq_some_iff.mp hk
  rw [List.length_range] at hlt
  rw [List.getElem_range]
  refine ⟨_, List.getElem?_eq_getElem hlt, ?_⟩
  rw [List.getElem?_map, List.getElem?_eq_getElem (by exact hlt)]
  rfl

end Catalog

namespace Database

variable {db db' : Database} {t : TxHandle} {table id : TableId} {filter : Option Expr}
  {rids : List RowId} {rows : List (List Value)} {rid : RowId} {v : Version}

/-- Every version that is read by a condition may be written if the statement comes to no conflict. -/
theorem matching_write_of_read (hclear : db.catalog.Clear table (db.reader t) filter)
    (h : v ∈ db.catalog.matching table (db.reader t) .read filter) :
    v ∈ db.catalog.matching table (db.reader t) .write filter := by
  obtain ⟨hmem, hv⟩ := List.mem_filter.mp h
  obtain ⟨hread, hmeets⟩ := of_decide_eq_true hv
  obtain ⟨met, hmet, hvisible⟩ := hclear v hmem (Registry.visibility_write_of_read hread)
  rw [hmet] at hmeets
  have htrue : met = true := Option.some.inj hmeets
  exact List.mem_filter.mpr ⟨hmem, decide_eq_true ⟨hvisible htrue, by rw [hmet, htrue]; rfl⟩⟩

/-- A transaction that takes a new snapshot for each statement reads every version that it may write. -/
theorem matching_read_of_write (hs : db.Sound)
    (hpins : (db.transaction t).isolation.pinsSnapshot = false)
    (h : v ∈ db.catalog.matching table (db.reader t) .write filter) :
    v ∈ db.catalog.matching table (db.reader t) .read filter := by
  obtain ⟨hmem, hv⟩ := List.mem_filter.mp h
  obtain ⟨hwrite, hmeets⟩ := of_decide_eq_true hv
  have hsnapshot : db.snapshotOf t = (db.begun t).registry.snapshot := by
    rw [snapshotOf, hpins]
    rfl
  have hcreator : (db.begun t).registry.Registered v.creator :=
    registered_begun (hs.creator (version?_rid hs hmem))
  have hread : (db.reader t).see .read v = .visible := by
    simp only [reader, hsnapshot] at hwrite ⊢
    exact Registry.visibility_read_of_write hcreator hwrite
  exact List.mem_filter.mpr ⟨hmem, decide_eq_true ⟨hread, hmeets⟩⟩

theorem stampedBy_of_deleter (hs : db.Sound) (hv : db.version? id rid = some v)
    (hd : v.deleter = some (db.start t).1) : db.StampedBy t id rid :=
  ⟨v, _, hv, hd, (eq_start_iff (hs.deleter hv hd)).mp rfl⟩

/-- A statement stamps the versions that it collects, which did not have its stamp. -/
theorem stamps_of_applied (hs : db.Sound) (ht : db.Active t)
    (h : (db.begun t).Applied (db.start t).1 table
      ((db.catalog.matching table (db.reader t) .write filter).map (·.rid)) rows db')
    (hv : v ∈ db.catalog.matching table (db.reader t) .write filter) :
    db.Stamps db' t table v.rid := by
  obtain ⟨hmem, hwrite⟩ := List.mem_filter.mp hv
  have hversion := version?_rid hs hmem
  obtain ⟨_, hlapsed⟩ := Registry.visibility_write.mp (of_decide_eq_true hwrite).1
  refine ⟨?_, ?_⟩
  · rintro ⟨w, x, hw, hx, hme⟩
    rw [hversion] at hw
    cases hw
    exact (hlapsed x hx).1 ((eq_start_iff (hs.deleter hversion hx)).mpr hme)
  · have hbegun : (db.begun t).version? table v.rid = some v := by
      rwa [version?_of_catalog_eq begun_catalog]
    refine ⟨_, (db.start t).1, version?_applied h hbegun, ?_,
      number?_applied (number?_begun ht.1) h⟩
    rw [if_pos rfl, Version.stampIn_of_mem (List.mem_map_of_mem hv)]

theorem mem_of_stamps (hs : db.Sound) (ht : db.Active t)
    (h : (db.begun t).Applied (db.start t).1 table rids rows db') (hstamps : db.Stamps db' t id rid) :
    id = table ∧ rid ∈ rids := by
  obtain ⟨hbefore, w, x, hw, hx, hme⟩ := hstamps
  rw [number?_applied (number?_begun ht.1) h] at hme
  obtain rfl := Option.some.inj hme
  rcases version?_applied_cases h hw with ⟨v, hv, rfl⟩ | ⟨_, hnew⟩
  · rw [version?_of_catalog_eq begun_catalog] at hv
    have hunstamped : v.deleter ≠ some (db.start t).1 := fun hd =>
      hbefore (stampedBy_of_deleter hs hv hd)
    have hrid := hs.rid hv
    by_cases hid : id = table
    · rw [if_pos hid] at hx
      by_cases hmem : v.rid ∈ rids
      · exact ⟨hid, hrid ▸ hmem⟩
      · rw [Version.stampIn_of_notMem hmem] at hx
        exact absurd hx hunstamped
    · rw [if_neg hid] at hx
      exact absurd hx hunstamped
  · rw [(Version.mem_ofRows hnew).2.2] at hx
    cases hx

end Database

/-! ## Queries of a single table -/

namespace Plan

variable {c : Catalog} {options : PlannerOptions} {policy : ConflictPolicy} {table : TableId}
  {condition : Expr} {s : Select} {p : Plan} {q : QueryTree}

/-- A query of one table with a condition reads the columns that it names. Its condition is tested above
the scan. -/
theorem tree_single (hsources : s.sources = [⟨.table table, none⟩]) (hfilter : s.filter = some condition)
    (hp : ofSelect c options s = .ok p) (hq : p.tree c policy = .ok q) :
    ∃ names columns, q = (QueryTree.filter condition policy
        (.scan (.ofColumns policy table columns names))).finishing policy s ∧
      RowView.Shows (c.table table).schema names columns ∧
      (∀ i ∈ columns, (c.table table).schema.First i) ∧ condition.hasAggregate = false ∧
      ∀ ref ∈ condition.fields, ref.table = (c.table table).schema.name ∧
        ∃ column ∈ columns, (c.table table).schema.columnIndex? ref.field = some column := by
  obtain ⟨needs, joins, hneeds, hcheck, hjoins, hfinish⟩ :=
    ofSelect_eq_ok (by rw [hsources]; exact List.cons_ne_nil _ _) hp
  have hscope : s.sources.map (ScopeEntry.ofFromItem c) =
      [⟨(c.table table).schema.name, .columns (c.table table).schema⟩] := by
    rw [hsources]
    rfl
  rw [hscope] at hneeds hjoins hfinish
  obtain ⟨hlength, hoffers, _⟩ := Select.offers_resolve (by rw [hsources]; rfl) hneeds
  obtain ⟨columns, rfl⟩ : ∃ columns, needs = [columns] := List.length_eq_one_iff.mp hlength
  rw [hfilter] at hcheck hjoins hfinish
  rw [splitFilter_single _ rfl, hsources] at hjoins
  rw [splitFilter_single _ rfl] at hfinish
  have hscan : joins = leaf c (.tableGet table columns .read []) := by
    rw [ofSources] at hjoins
    obtain ⟨plan, hplan, hjoins⟩ := bind_eq_ok.mp hjoins
    cases hplan
    cases hjoins
    rfl
  obtain ⟨q', hq', rfl⟩ := tree_finish hfinish hq
  rw [hscan, leaf, build, tree] at hq'
  obtain ⟨_, _, hq'⟩ := bind_eq_ok.mp hq'
  obtain ⟨scan, hcreate, hq'⟩ := bind_eq_ok.mp hq'
  cases hq'
  obtain ⟨names, rfl, _, hshows⟩ := create_eq_ok hcreate
  have hwithin := Select.within_resolve hneeds 0 columns _ _ rfl rfl rfl
  refine ⟨names, columns, rfl, hshows, hwithin, hasAggregate_of_checkFilter hcheck, ?_⟩
  intro ref href
  have hclause : condition ∈ s.clauses := by simp [Select.clauses, hfilter]
  obtain ⟨i, hfirst, entry, hentry, hoffer⟩ := hoffers condition hclause ref href
  obtain ⟨hlt, hname, _⟩ := List.findIdx?_eq_some_iff_getElem.mp hfirst
  obtain rfl : i = 0 := by simpa using hlt
  cases hentry
  obtain ⟨column, columns', hcolumn, hcolumns', hmem⟩ := hoffer
  cases hcolumns'
  exact ⟨(eq_of_beq hname).symm, column, hmem, hcolumn⟩

end Plan

namespace Session

variable {s : Session} {c : Catalog} {op : Operator} {query : Select} {table : TableId}
  {condition : Expr}

/-- A query of a table by a condition that no row meets has no rows to go on from. -/
theorem completed_select_nothing {R : Reader} (hR : ∀ v, R.see .read v ≠ .contested)
    (hwidth : ∀ v ∈ R.visible table, v.values.length = (c.table table).schema.width)
    (hmeets : ∀ v ∈ R.visible table, c.meets table (some condition) v = .ok false)
    (hsources : query.sources = [⟨.table table, none⟩]) (hfilter : query.filter = some condition)
    (hgroup : query.isAggregate = true → query.groupBy ≠ [])
    (hop : s.plan c (.select query) = .ok op) :
    ∃ q : QueryTree, op = q.operator ∧ q.Fresh ∧ q.completed R = some [] := by
  cases hp : Plan.ofSelect c s.options.planner query with
  | error e => simp only [plan, Plan.ofStatement, hp, reduceCtorEq] at hop
  | ok p =>
    rw [plan_select_eq hp] at hop
    cases hq : p.tree c s.options.policy with
    | error e =>
      rw [hq] at hop
      cases hop
    | ok q =>
      rw [hq] at hop
      cases hop
      refine ⟨q, rfl, (Plan.readOnly_tree (Plan.reads_ofSelect query hp) hq).1, ?_⟩
      obtain ⟨names, columns, rfl, hshows, hfirst, hcalls, hfields⟩ :=
        Plan.tree_single hsources hfilter hp hq
      refine QueryTree.completed_finishing_nil hgroup ?_
      have hall : (QueryTree.scan (.ofColumns s.options.policy table columns names)).completed R =
          some ((R.seen .read table).map fun r => (.stored names columns r.1, r.2)) := by
        rw [QueryTree.completed_scan]
        refine keepAll_eq_some.mpr ⟨fun _ _ => rfl, (List.filter_eq_self.mpr ?_).symm⟩
        intro r _
        rfl
      rw [QueryTree.completed_filter, hall, Option.bind_some, keepAll_map]
      have hnone : ∀ r ∈ R.seen .read table, Stream.passes s.options.policy
          (fun v => (RowView.joined v .empty).holds condition)
          (.stored names columns r.1, r.2) = some false := by
        intro r hr
        obtain ⟨hmem, hsee, hread⟩ := Reader.mem_seen_read hR hr
        have hv : r.1 ∈ R.visible table := List.mem_filter.mpr ⟨hmem, decide_eq_true hsee⟩
        have hfind : ∀ ref ∈ condition.fields,
            (RowView.stored names columns r.1).find (.qualified ref.table ref.field) =
              (c.fullRow table r.1).find (.qualified ref.table ref.field) := by
          intro ref href
          obtain ⟨hname, column, hmem, hcolumn⟩ := hfields ref href
          rw [hname, RowView.find_scan hshows hfirst hmem hcolumn (hwidth _ hv), Catalog.fullRow,
            RowView.find_all (Catalog.shows_fullRow c table) hcolumn (hwidth _ hv)]
        have hholds : (RowView.stored names columns r.1).holds condition = .ok false :=
          (Expr.holds_congr hcalls hfind).trans (hmeets _ hv)
        rw [Stream.passes, RowView.holds_joined_empty, hholds, hread]
        rfl
      refine (congrArg (Option.map _) (keepAll_eq_some.mpr ⟨?_, rfl⟩)).trans ?_
      · intro r hr
        rw [hnone r hr]
        rfl
      · rw [List.filter_eq_nil_iff.mpr]
        · rfl
        · intro r hr
          simp [hnone r hr]

variable {db db' : Database} {t : TxHandle} {stmt : Statement} {filter : Option Expr}
  {result : QueryResult}

private theorem applied_of_delete (hs : db.Sound) (ht : db.Active t)
    (hop : s.plan db.catalog (.delete table filter) = .ok op)
    (hrun : (drive (.delete table filter) op t db).outcome = (.ok result, db')) :
    db.catalog.Clear table (db.reader t) filter ∧
      (db.begun t).Applied (db.start t).1 table
        ((db.catalog.matching table (db.reader t) .write filter).map (·.rid)) [] db' := by
  rw [plan_delete] at hop
  split at hop
  · cases hop
  · cases hop
    obtain ⟨hclear, happlied, _⟩ := applied_delete hs ht hrun
    exact ⟨hclear, happlied⟩

private theorem applied_of_update (hs : db.Sound) (hf : db.catalog.Formed) (ht : db.Active t)
    {sets : List Assignment} (hop : s.plan db.catalog (.update table sets filter) = .ok op)
    (hrun : (drive (.update table sets filter) op t db).outcome = (.ok result, db')) :
    db.catalog.Clear table (db.reader t) filter ∧ ∃ rows,
      (db.begun t).Applied (db.start t).1 table
        ((db.catalog.matching table (db.reader t) .write filter).map (·.rid)) rows db' := by
  rw [plan_update] at hop
  split at hop
  · cases hop
  · cases hop
    obtain ⟨hclear, changes, hmap, _, happlied, _⟩ :=
      applied_update hs (Database.length_values hf table) ht hrun
    rw [rids_of_replacement hmap] at happlied
    exact ⟨hclear, _, happlied⟩

private theorem meets_after_delete (ht : db.Active t)
    (hclear : db.catalog.Clear table (db.reader t) filter)
    (happlied : (db.begun t).Applied (db.start t).1 table
      ((db.catalog.matching table (db.reader t) .write filter).map (·.rid)) [] db') :
    ∀ v ∈ (db'.reader t).visible table, db'.catalog.meets table filter v = .ok false := by
  have hsee : (db'.reader t).see = (db.reader t).see :=
    (Database.see_writes happlied.writes t).trans (Database.see_begun_self ht.1)
  have hschema : (db'.catalog.table table).schema = (db.catalog.table table).schema := by
    rw [Database.schema_applied happlied, Database.begun_catalog]
  intro v hv
  obtain ⟨hmem, hvisible⟩ := List.mem_filter.mp hv
  obtain ⟨rid, hversion⟩ := Database.mem_versions.mp hmem
  rw [hsee] at hvisible
  have hread := of_decide_eq_true hvisible
  rcases Database.version?_applied_cases happlied hversion with ⟨w, hw, hstamped⟩ | ⟨_, hnew⟩
  · rw [Database.version?_of_catalog_eq Database.begun_catalog] at hw
    rw [if_pos rfl] at hstamped
    have hunstamped : w.rid ∉ (db.catalog.matching table (db.reader t) .write filter).map (·.rid) := by
      intro hrid
      rw [hstamped, Version.stampIn_of_mem hrid] at hread
      obtain ⟨_, hdeleter⟩ := (Registry.visibility_read _ _ _ _).2.mp hread
      exact hdeleter ⟨_, rfl, .inl rfl⟩
    rw [Version.stampIn_of_notMem hunstamped] at hstamped
    subst hstamped
    have hmem : v ∈ (db.reader t).versions table := Database.mem_versions.mpr ⟨rid, hw⟩
    obtain ⟨met, hmet, hwrite⟩ := hclear v hmem (Registry.visibility_write_of_read hread)
    have hsame : db'.catalog.meets table filter v = db.catalog.meets table filter v := by
      simp only [Catalog.meets, Catalog.fullRow, hschema]
    rw [hsame, hmet]
    cases met with
    | false => rfl
    | true =>
      refine absurd (List.mem_map_of_mem (List.mem_filter.mpr ⟨hmem, ?_⟩)) hunstamped
      exact decide_eq_true ⟨hwrite rfl, by rw [hmet]; rfl⟩
  · cases hnew

private theorem select_after_delete (hformed : db'.catalog.Formed) (hactive : db'.Active t)
    (hmeets : ∀ v ∈ (db'.reader t).visible table,
      db'.catalog.meets table (some condition) v = .ok false)
    (hsources : query.sources = [⟨.table table, none⟩]) (hfilter : query.filter = some condition)
    (hgroup : query.isAggregate = true → query.groupBy ≠ [])
    (hop : s.plan db'.catalog (.select query) = .ok op) :
    (drive (.select query) op t db').answer =
      .ok (.rows { columns := columnNames (.select query), rows := [] }) := by
  have hwidth : ∀ v ∈ (db'.reader t).visible table,
      v.values.length = (db'.catalog.table table).schema.width := by
    intro v hv
    obtain ⟨rid, hversion⟩ := Database.mem_versions.mp (List.mem_filter.mp hv).1
    exact hformed.width hversion
  obtain ⟨q, rfl, hfresh, hnone⟩ := completed_select_nothing (Database.reader_uncontested t db')
    hwidth hmeets hsources hfilter hgroup hop
  have hanswer := answer_drive_select query hfresh hactive
  rw [hnone] at hanswer
  exact toOption_eq_some.mp hanswer

/-- A DELETE or UPDATE that succeeds stamps every version that a query by its condition would have read
just before. Without a pinned snapshot these are all that it stamps. After a DELETE, a query by the same
condition finds nothing. -/
theorem drive_stamps (hdb : db.Reachable) (ht : db.Active t)
    (hop : s.plan db.catalog stmt = .ok op) (hchanges : stmt.changes? = some (table, filter))
    (hrun : (drive stmt op t db).outcome = (.ok result, db')) :
    ∃ rs : List Row, (QueryTree.reading db.catalog s.options.policy table filter).operator.Executes t db
        (rs.map fun r => (.row, .ok r)) (.ok ()) ∧
      (∀ r ∈ rs, ∃ rid, r.rid = some rid ∧ db.Stamps db' t table rid) ∧
      ((db.transaction t).isolation = .readCommitted → ∀ id rid, db.Stamps db' t id rid →
        id = table ∧ ∃ r ∈ rs, r.rid = some rid) ∧
      ∀ condition, stmt = .delete table (some condition) →
        ∀ (s' : Session) (query : Select) (op' : Operator),
          query.sources = [⟨.table table, none⟩] → query.filter = some condition →
          (query.isAggregate = true → query.groupBy ≠ []) →
          s'.plan db'.catalog (.select query) = .ok op' →
          (drive (.select query) op' t db').answer =
            .ok (.rows { columns := columnNames (.select query), rows := [] }) := by
  have hsound := Database.sound_of_reachable hdb
  have hformed := Database.formed_of_reachable hdb
  obtain ⟨hclear, rows, happlied⟩ : db.catalog.Clear table (db.reader t) filter ∧ ∃ rows,
      (db.begun t).Applied (db.start t).1 table
        ((db.catalog.matching table (db.reader t) .write filter).map (·.rid)) rows db' := by
    cases stmt with
    | delete table' filter' =>
      cases hchanges
      obtain ⟨hclear, happlied⟩ := applied_of_delete hsound ht hop hrun
      exact ⟨hclear, [], happlied⟩
    | update table' sets filter' =>
      cases hchanges
      exact applied_of_update hsound hformed ht hop hrun
    | _ => cases hchanges
  have hvisible : ∀ v ∈ (db.reader t).visible table, v ∈ (db.reader t).versions table ∧
      (db.reader t).see .read v = .visible := by
    intro v hv
    obtain ⟨hmem, hsee⟩ := List.mem_filter.mp hv
    exact ⟨hmem, of_decide_eq_true hsee⟩
  refine ⟨(db.catalog.matching table (db.reader t) .read filter).map (db.catalog.plainRow table),
    ?_, ?_, ?_, ?_⟩
  · refine QueryTree.executes_rows (QueryTree.fresh_reading ..) (QueryTree.readOnly_reading ..) ht ?_
    rw [Database.visibleTo_eq ht]
    refine Catalog.rows_reading ?_ ?_ s.options.policy
    · intro v hv
      obtain ⟨rid, hversion⟩ := Database.mem_versions.mp (hvisible v hv).1
      exact hformed.width hversion
    · intro v hv
      obtain ⟨hmem, hread⟩ := hvisible v hv
      obtain ⟨met, hmet, _⟩ := hclear v hmem (Registry.visibility_write_of_read hread)
      exact ⟨met, hmet⟩
  · intro r hr
    obtain ⟨v, hv, rfl⟩ := List.mem_map.mp hr
    exact ⟨v.rid, rfl, Database.stamps_of_applied hsound ht happlied
      (Database.matching_write_of_read hclear hv)⟩
  · intro hisolation id rid hstamps
    obtain ⟨rfl, hrid⟩ := Database.mem_of_stamps hsound ht happlied hstamps
    obtain ⟨v, hv, rfl⟩ := List.mem_map.mp hrid
    have hpins : (db.transaction t).isolation.pinsSnapshot = false := by rw [hisolation]; rfl
    exact ⟨rfl, _, List.mem_map_of_mem (Database.matching_read_of_write hsound hpins hv), rfl⟩
  · rintro condition rfl s' query op' hsources hfilter hgroup hop'
    cases hchanges
    obtain ⟨_, hdeleted⟩ := applied_of_delete hsound ht hop hrun
    have hreachable := Database.reachable_works hdb (works_drive hop ht)
    rw [Turn.db_of_outcome hrun] at hreachable
    refine select_after_delete (Database.formed_of_reachable hreachable)
      (Database.active_applied (Database.active_begun ht) hdeleted) ?_ hsources hfilter hgroup hop'
    exact meets_after_delete ht hclear hdeleted

/-- Two rows are committed, a third belongs to a transaction that goes on, and a last one begins. -/
def amongOthers : History :=
  [.keepTable ⟨"t", [⟨"n", .integer, true⟩]⟩, .begin .readCommitted, .insertRow ⟨0⟩ ⟨0⟩ [.integer 1],
    .insertRow ⟨0⟩ ⟨0⟩ [.integer 2], .commit ⟨0⟩, .begin .repeatableRead,
    .insertRow ⟨1⟩ ⟨0⟩ [.integer 3], .begin .readCommitted]

/-- `t.n = 1`. -/
def isOne : Expr := .comparison .eq (.field ⟨"t", "n", .integer⟩) (.literal (.integer 1))

/-- The operators of `DELETE FROM t WHERE t.n = 1`. -/
def deleteOnes : Operator :=
  .delete ⟨0⟩ (QueryTree.targets amongOthers.final.catalog .absorbUnmatched ⟨0⟩ (some isOne)).operator
    none

theorem drive_stamps_amongOthers :
    amongOthers.final.Reachable ∧ amongOthers.final.Active ⟨2⟩ ∧
      ({} : Session).plan amongOthers.final.catalog (.delete ⟨0⟩ (some isOne)) = .ok deleteOnes ∧
      (Statement.delete ⟨0⟩ (some isOne)).changes? = some (⟨0⟩, some isOne) ∧ ∃ result db',
      (drive (.delete ⟨0⟩ (some isOne)) deleteOnes ⟨2⟩ amongOthers.final).outcome =
        (.ok result, db') ∧
      ∃ rs : List Row, (QueryTree.reading amongOthers.final.catalog .absorbUnmatched ⟨0⟩
          (some isOne)).operator.Executes ⟨2⟩ amongOthers.final
            (rs.map fun r => (.row, .ok r)) (.ok ()) ∧
        ∀ r ∈ rs, ∃ rid, r.rid = some rid ∧ amongOthers.final.Stamps db' ⟨2⟩ ⟨0⟩ rid := by
  have hreachable : amongOthers.final.Reachable := ⟨amongOthers, rfl⟩
  have hactive : amongOthers.final.Active ⟨2⟩ := ⟨by decide, rfl⟩
  have hop : ({} : Session).plan amongOthers.final.catalog (.delete ⟨0⟩ (some isOne)) =
      .ok deleteOnes := rfl
  obtain ⟨result, db', hrun⟩ : ∃ result db', (drive (.delete ⟨0⟩ (some isOne)) deleteOnes ⟨2⟩
      amongOthers.final).outcome = (.ok result, db') := by
    have hsome : (drive (.delete ⟨0⟩ (some isOne)) deleteOnes ⟨2⟩
        amongOthers.final).answer.toOption.isSome = true := by
      decide +kernel
    generalize drive (.delete ⟨0⟩ (some isOne)) deleteOnes ⟨2⟩ amongOthers.final = turn at hsome
    obtain ⟨answer, op, db'⟩ := turn
    cases answer with
    | error e => cases hsome
    | ok result => exact ⟨result, db', rfl⟩
  obtain ⟨rs, hreads, hstamps, _⟩ := drive_stamps hreachable hactive hop rfl hrun
  exact ⟨hreachable, hactive, hop, rfl, result, db', hrun, rs, hreads, hstamps⟩

end Session

end SnapshotSql
