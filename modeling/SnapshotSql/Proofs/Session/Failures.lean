import SnapshotSql.Proofs.Query.Execution
import SnapshotSql.Proofs.Session.Changes
/-! # Statements that fail inside a transaction -/

namespace SnapshotSql

/-- Whether a statement inserts, deletes or updates rows. -/
def Statement.writes : Statement → Bool
  | insert .. | delete .. | update .. => true
  | _ => false

namespace Database

variable {db db' : Database} {t u : TxHandle}

theorem visibleTo_congr (hu : db.Active u) (hu' : db'.Active u) (hcatalog : db'.catalog = db.catalog)
    (hsee : ∀ {table rid v}, db.version? table rid = some v →
      (db'.reader u).see .read v = (db.reader u).see .read v) :
    db'.visibleTo u = db.visibleTo u := by
  rw [visibleTo_eq hu, visibleTo_eq hu']
  funext table
  have hversions : (db'.reader u).versions table = (db.reader u).versions table := by
    simp only [reader, hcatalog]
  rw [Reader.visible, Reader.visible, hversions]
  refine List.filter_congr fun v hv => ?_
  obtain ⟨rid, hversion⟩ := mem_versions.mp hv
  rw [hsee hversion]

/-- When a transaction starts, everything stays visible to others and to itself. -/
theorem visibleTo_begun (hs : db.Sound) (ht : db.Knows t) (hu : db.Active u) :
    (db.begun t).visibleTo u = db.visibleTo u := by
  refine visibleTo_congr hu ⟨knows_begun.mpr hu.1, (ending_begun ht).trans hu.2⟩ begun_catalog ?_
  intro table rid v hv
  exact see_begun hs ht hv .read

theorem visibleTo_writes {me : TxId} (hu : db.Active u) (h : Writes me db db')
    (hcatalog : db'.catalog = db.catalog) : db'.visibleTo u = db.visibleTo u := by
  refine visibleTo_congr hu ((active_writes h).mpr hu) hcatalog ?_
  intro table rid v _
  rw [see_writes h]

end Database

namespace Session

/-- What a statement that fails leaves of the database that it was run on. -/
inductive Leaves (s : Session) (t : TxHandle) (db : Database) : Statement → Database → Prop
  | unplanned {stmt : Statement} {e : ExecError} (h : s.plan db.catalog stmt = .error e) :
      Leaves s t db stmt db
  /-- The transaction has started, but a row of a DELETE could not be read. -/
  | undeleted (table : TableId) (filter : Option Expr) :
      Leaves s t db (.delete table filter) (db.begun t)
  /-- The transaction has started, but a row of an UPDATE could not be read. -/
  | unchanged (table : TableId) (sets : List Assignment) (filter : Option Expr) :
      Leaves s t db (.update table sets filter) (db.begun t)
  /-- The records before one that does not fit are inserted. -/
  | inserted {table : TableId} {records : List (List Value)} {db' : Database}
      (hcut : ∃ values ∈ records, (db.catalog.table table).schema.fits values = false)
      (h : (db.begun t).Applied (db.start t).1 table []
        (records.takeWhile (db.catalog.table table).schema.fits) db') :
      Leaves s t db (.insert table records) db'
  /-- The rows before one whose new values do not fit are replaced. -/
  | replaced {table : TableId} {sets : List Assignment} {filter : Option Expr}
      {targets : List (Nat × Expr)} {changes taken : List (RowId × List Value)} {db' : Database}
      (htargets : updateTargets db.catalog table sets filter = .ok targets)
      (hchanges : (db.catalog.matching table (db.reader t) .write filter).mapM
        (db.catalog.replacement table targets) = .ok changes)
      (hcut : ∃ change ∈ changes, (db.catalog.table table).schema.fits change.2 = false)
      (htaken : taken = changes.takeWhile fun change =>
        (db.catalog.table table).schema.fits change.2)
      (h : (db.begun t).Applied (db.start t).1 table (taken.map (·.1)) (taken.map (·.2)) db') :
      Leaves s t db (.update table sets filter) db'

variable {s : Session} {db : Database} {t : TxHandle} {stmt : Statement} {op : Operator}
  {answer : Except ExecError QueryResult} {db' : Database} {e : ExecError}

private theorem leaves_insert {table : TableId} {records : List (List Value)} (ht : db.Active t)
    (h : (drive (.insert table records) (.insert table records none) t db).outcome =
      (.error e, db')) : s.Leaves t db (.insert table records) db' := by
  obtain ⟨db'', happlied, houtcome⟩ := outcome_insert table ht records
  rw [houtcome] at h
  cases hfault : records.findSome? (db.catalog.table table).schema.recordFault? with
  | none =>
    rw [hfault] at h
    cases h
  | some fault =>
    rw [hfault] at h
    cases h
    obtain ⟨values, hmem, hvalues⟩ := List.exists_of_findSome?_eq_some hfault
    have hempty : records.isEmpty = false := List.isEmpty_eq_false_iff_exists_mem.mpr ⟨values, hmem⟩
    rw [hempty] at happlied
    exact .inserted ⟨values, hmem, by simp [TableSchema.fits, hvalues]⟩ happlied

private theorem leaves_delete {table : TableId} {filter : Option Expr} (hs : db.Sound)
    (ht : db.Active t) (hop : s.plan db.catalog (.delete table filter) = .ok op)
    (h : (drive (.delete table filter) op t db).outcome = (.error e, db')) :
    s.Leaves t db (.delete table filter) db' := by
  rw [plan_delete] at hop
  split at hop
  · cases hop
  · cases hop
    rcases outcome_delete db.catalog s.options.policy table filter hs ht with
      ⟨e', _, houtcome⟩ | ⟨_, db'', _, houtcome⟩
    · rw [houtcome] at h
      cases h
      exact .undeleted table filter
    · rw [houtcome] at h
      cases h

private theorem leaves_update {table : TableId} {sets : List Assignment} {filter : Option Expr}
    (hs : db.Sound) (hf : db.catalog.Formed) (ht : db.Active t)
    (hop : s.plan db.catalog (.update table sets filter) = .ok op)
    (h : (drive (.update table sets filter) op t db).outcome = (.error e, db')) :
    s.Leaves t db (.update table sets filter) db' := by
  rw [plan_update] at hop
  cases htargets : updateTargets db.catalog table sets filter with
  | error e' =>
    rw [htargets] at hop
    cases hop
  | ok targets =>
    rw [htargets] at hop
    cases hop
    rcases outcome_update db.catalog s.options.policy table filter hs (Database.length_values hf table)
      ht sets targets with
      ⟨e', _, houtcome⟩ | ⟨_, changes, hchanges, db'', happlied, houtcome⟩
    · rw [houtcome] at h
      cases h
      exact .unchanged table sets filter
    · rw [houtcome] at h
      cases hfault : changes.findSome? fun change =>
          (db.catalog.table table).schema.recordFault? change.2 with
      | none =>
        rw [hfault] at h
        cases h
      | some fault =>
        rw [hfault] at h
        cases h
        obtain ⟨change, hmem, hvalues⟩ := List.exists_of_findSome?_eq_some hfault
        exact .replaced htargets hchanges
          ⟨change, hmem, by simp [TableSchema.fits, hvalues]⟩ rfl happlied

private theorem visibleTo_leaves (hs : db.Sound) (ht : db.Active t) (h : s.Leaves t db stmt db')
    (hcatalog : db'.catalog = db.catalog) {u : TxHandle} (hu : db.Active u) :
    db'.visibleTo u = db.visibleTo u := by
  have hbegun := Database.visibleTo_begun hs ht.1 hu
  have hactive : (db.begun t).Active u :=
    ⟨Database.knows_begun.mpr hu.1, (Database.ending_begun ht.1).trans hu.2⟩
  have happlied : ∀ {table rids rows}, (db.begun t).Applied (db.start t).1 table rids rows db' →
      db'.visibleTo u = db.visibleTo u := by
    intro table rids rows h
    have hbegunCatalog : db'.catalog = (db.begun t).catalog :=
      hcatalog.trans Database.begun_catalog.symm
    rw [Database.visibleTo_writes hactive h.writes hbegunCatalog, hbegun]
  cases h with
  | unplanned => rfl
  | undeleted | unchanged => exact hbegun
  | inserted _ h => exact happlied h
  | replaced _ _ _ _ h => exact happlied h

theorem execute_unplanned (hstmt : stmt.writes = true ∨ ∃ query, stmt = .select query)
    (hop : s.plan db.catalog stmt = .error e) : s.execute stmt db = ⟨.error e, s, db⟩ := by
  cases stmt with
  | insert | delete | update | select => simp only [execute, hop]
  | _ => simp [Statement.writes] at hstmt

theorem execute_planned (hop : s.plan db.catalog stmt = .ok op) :
    s.execute stmt db = s.run stmt op db := by
  cases stmt with
  | begin | commit | rollback | showTables => cases hop
  | _ => simp only [execute, hop]

private theorem leaves_drive (hs : db.Sound) (hf : db.catalog.Formed) (ht : db.Active t)
    (hwrites : stmt.writes = true) (hop : s.plan db.catalog stmt = .ok op)
    (h : (drive stmt op t db).outcome = (.error e, db')) : s.Leaves t db stmt db' := by
  cases stmt with
  | insert table records =>
    rw [plan_insert] at hop
    cases hop
    exact leaves_insert ht h
  | delete table filter => exact leaves_delete hs ht hop h
  | update table sets filter => exact leaves_update hs hf ht hop h
  | _ => cases hwrites

private theorem leaves_execute {origin : TxOrigin} (hs : db.Sound) (hf : db.catalog.Formed)
    (ht : db.Active t) (hheld : s.held = some (t, origin)) (hwrites : stmt.writes = true)
    (hfails : (s.execute stmt db).result = .error e) :
    (s.execute stmt db).session = s ∧ s.Leaves t db stmt (s.execute stmt db).db := by
  cases hop : s.plan db.catalog stmt with
  | error e' =>
    rw [execute_unplanned (.inl hwrites) hop]
    exact ⟨rfl, .unplanned hop⟩
  | ok op =>
    have hleaves : ∀ db', (drive stmt op t db).outcome = (.error e, db') → s.Leaves t db stmt db' :=
      fun db' => leaves_drive hs hf ht hwrites hop
    rw [execute_planned hop] at hfails ⊢
    rw [run_held hheld] at hfails ⊢
    obtain ⟨turn, hturn⟩ : ∃ turn, drive stmt op t db = turn := ⟨_, rfl⟩
    rw [hturn] at hleaves hfails ⊢
    exact ⟨rfl, hleaves turn.db (Prod.ext hfails rfl)⟩

/-- If a statement of an open transaction fails, the session keeps its transaction, and of the rows that
the statement would have written those before one that does not fit its table stay. If there are none,
every transaction reads what it would have read without the statement. -/
theorem execute_failed (events : List Event) {i : Nat} {s : Session} {t : TxHandle}
    {origin : TxOrigin} {stmt : Statement} {e : ExecError}
    (hs : (System.after events).sessions[i]? = some s) (hheld : s.held = some (t, origin))
    (hwrites : stmt.writes = true)
    (hfails : (s.execute stmt (System.after events).db).result = .error e) :
    (s.execute stmt (System.after events).db).session = s ∧
      s.Leaves t (System.after events).db stmt (s.execute stmt (System.after events).db).db ∧
      ((s.execute stmt (System.after events).db).db.catalog = (System.after events).db.catalog →
        ∀ u, (System.after events).db.Active u →
          (s.execute stmt (System.after events).db).db.visibleTo u =
            (System.after events).db.visibleTo u) := by
  have hvalid := System.valid_after events
  have ht := hvalid.ready s (List.mem_of_getElem? hs) t origin hheld
  have hsound := Database.sound_of_reachable hvalid.reachable
  have hformed := Database.formed_of_reachable hvalid.reachable
  obtain ⟨hsession, hleaves⟩ := leaves_execute hsound hformed ht hheld hwrites hfails
  exact ⟨hsession, hleaves, fun hcatalog u hu => visibleTo_leaves hsound ht hleaves hcatalog hu⟩

/-- A session with an open transaction, and a table with two rows. -/
def openWithRows : List Event :=
  [.operate (.createTable "t" [⟨"a", .integer, false⟩, ⟨"b", .integer, true⟩]),
    .operate (.begin .readCommitted), .operate (.insertRow ⟨0⟩ ⟨0⟩ [.integer 1, .integer 5]),
    .operate (.insertRow ⟨0⟩ ⟨0⟩ [.integer 2, .null]), .operate (.commit ⟨0⟩),
    .connect { isolation := .repeatableRead }, .execute 0 .begin]

/-- An INSERT of a record that fits the table and one that does not. -/
def insertMisfit : Statement := .insert ⟨0⟩ [[.integer 3, .null], [.null, .null]]

/-- `UPDATE t SET a = t.b`, which fits the first row only. -/
def updateMisfit : Statement :=
  .update ⟨0⟩ [⟨"a", .field ⟨"t", "b", .integer⟩⟩] none

/-- `DELETE FROM t WHERE 1 / 0 = 1`. -/
def deleteByZero : Statement :=
  .delete ⟨0⟩ (some (.comparison .eq
    (.arithmetic .div (.literal (.integer 1)) (some (.literal (.integer 0)))) (.literal (.integer 1))))

/-- `SELECT t.a FROM t`. -/
def selectFirst : Statement :=
  .select ⟨[⟨.field ⟨"t", "a", .integer⟩, none⟩], [⟨.table ⟨0⟩, none⟩], none, [], none, []⟩

/-- A row that another transaction inserts and commits. -/
def committedMeanwhile : List Event :=
  [.operate (.begin .readCommitted), .operate (.insertRow ⟨2⟩ ⟨0⟩ [.integer 9, .null]),
    .operate (.commit ⟨2⟩)]

/-- What the session reads after some events. -/
def readAfter (events : List Event) : Option (List (List Value)) :=
  match ((System.after events).execute 0 selectFirst).1 with
  | some (.ok (.rows set)) => some set.rows
  | _ => none

/-- Whether a statement of the session fails after some events. -/
def failsAfter (events : List Event) (stmt : Statement) : Bool :=
  ((System.after events).execute 0 stmt).1.any fun result => result.toOption.isNone

/-- A session with the transaction of `openWithRows`. -/
def openSession : Session := ⟨{ isolation := .repeatableRead }, some (⟨1⟩, .explicit)⟩

theorem execute_failed_insertMisfit :
    (System.after openWithRows).sessions[0]? = some openSession ∧
      openSession.held = some (⟨1⟩, .explicit) ∧ insertMisfit.writes = true ∧ ∃ e,
      (openSession.execute insertMisfit (System.after openWithRows).db).result = .error e ∧
      openSession.Leaves ⟨1⟩ (System.after openWithRows).db insertMisfit
        (openSession.execute insertMisfit (System.after openWithRows).db).db := by
  have hsession : (System.after openWithRows).sessions[0]? = some openSession := rfl
  have hnone : (openSession.execute insertMisfit
      (System.after openWithRows).db).result.toOption.isNone = true := by
    decide +kernel
  obtain ⟨e, hfails⟩ : ∃ e, (openSession.execute insertMisfit
      (System.after openWithRows).db).result = .error e := by
    generalize (openSession.execute insertMisfit (System.after openWithRows).db).result = result
      at hnone
    cases result with
    | ok result => cases hnone
    | error e => exact ⟨e, rfl⟩
  obtain ⟨_, hleaves, _⟩ := execute_failed openWithRows hsession rfl rfl hfails
  exact ⟨hsession, rfl, rfl, e, hfails, hleaves⟩

/-- Rows that a failing INSERT or UPDATE wrote are read afterwards, and a failing DELETE pins the
snapshot of the transaction. -/
theorem execute_failed_seen :
    readAfter openWithRows = some [[.integer 1], [.integer 2]] ∧
    failsAfter openWithRows insertMisfit = true ∧
    readAfter (openWithRows ++ [.execute 0 insertMisfit]) =
      some [[.integer 1], [.integer 2], [.integer 3]] ∧
    failsAfter openWithRows updateMisfit = true ∧
    readAfter (openWithRows ++ [.execute 0 updateMisfit]) = some [[.integer 2], [.integer 5]] ∧
    failsAfter openWithRows deleteByZero = true ∧
    readAfter (openWithRows ++ [.execute 0 deleteByZero] ++ committedMeanwhile) =
      some [[.integer 1], [.integer 2]] ∧
    readAfter (openWithRows ++ committedMeanwhile) =
      some [[.integer 1], [.integer 2], [.integer 9]] := by
  decide +kernel

end Session

end SnapshotSql
