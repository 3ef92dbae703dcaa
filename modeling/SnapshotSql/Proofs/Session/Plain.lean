import SnapshotSql.Proofs.Session.Failures
import SnapshotSql.Proofs.Session.Repeatable
import SnapshotSql.Proofs.Session.Tables
/-! # A session on plain tables -/

namespace SnapshotSql

/-- The result of a statement that writes: the number of rows, or a failure. -/
def QueryResult.Reports (answer : Option (Tables × Nat)) (result : Except ExecError QueryResult) : Prop :=
  match answer with
  | some (_, n) => result = .ok (.modified n)
  | none => ∃ e, result = .error e

/-- A statement that leaves a database does to its tables what it does to plain ones, says so, and fails
for no conflict. -/
structure Statement.Follows (c : Catalog) (T : Tables) (stmt : Statement)
    (result : Except ExecError QueryResult) (db : Database) : Prop where
  answer : stmt.writes = true → QueryResult.Reports (stmt.onTables? c T) result
  calm : ∀ table rid, result ≠ .error (.transaction (.conflict table rid))
  rows : db.liveRows = stmt.after c T
  settled : db.Settled
  layout : db.catalog.tables.size = c.tables.size ∧ c.SameLayout db.catalog

namespace Session

variable {db db' : Database} {t : TxHandle} {table : TableId} {filter : Option Expr} {stmt : Statement}
  {rids : List RowId} {rows : List (List Value)} {s : Session} {op : Operator}

private theorem follows_done {n : Nat} (h : db.Alone t) (hwork : db.Worked t table rids rows db')
    (hknown : rows ≠ [] → table.index < db.catalog.tables.size)
    (hstmt : stmt.onTables? db.catalog db.liveRows = some (Tables.put db.liveRows table
      (((db.live table).filter (·.rid ∉ rids)).map (·.values) ++ rows), n)) :
    stmt.Follows db.catalog db.liveRows (.ok (.modified n)) (db'.ended t .committed) where
  answer _ := by
    rw [hstmt]
    rfl
  calm := nofun
  rows := by
    rw [Statement.after, hstmt]
    exact funext (Database.liveRows_committed h hwork hknown)
  settled := Database.settled_worked h hwork
  layout := by
    rw [Database.ended_catalog]
    exact Database.layout_worked hwork

private theorem follows_undone {e : ExecError} (h : db.Alone t) (hwork : db.Worked t table rids rows db')
    (hstmt : stmt.onTables? db.catalog db.liveRows = none)
    (he : ∀ table rid, e ≠ .transaction (.conflict table rid)) :
    stmt.Follows db.catalog db.liveRows (.error e) (db'.ended t .aborted) where
  answer _ := by
    rw [hstmt]
    exact ⟨e, rfl⟩
  calm := by
    rintro table rid ⟨⟩
    exact he table rid rfl
  rows := by
    rw [Statement.after, hstmt]
    exact Database.liveRows_aborted h hwork
  settled := Database.settled_worked h hwork
  layout := by
    rw [Database.ended_catalog]
    exact Database.layout_worked hwork

private theorem all_fit {α : Type} {schema : TableSchema} {values : α → List Value} {xs : List α} :
    (xs.findSome? fun x => schema.recordFault? (values x)) = none ↔
      xs.all (fun x => schema.fits (values x)) = true := by
  simp only [List.findSome?_eq_none_iff, List.all_eq_true, TableSchema.fits, Option.isNone_iff_eq_none]

private theorem takeWhile_fits {α : Type} {schema : TableSchema} {values : α → List Value} {xs : List α}
    (h : xs.all (fun x => schema.fits (values x)) = true) :
    (xs.takeWhile fun x => schema.fits (values x)) = xs :=
  List.takeWhile_eq_self_iff.mpr (List.all_eq_true.mp h)

private theorem ne_conflict {e : ExecError} (h : ¬e.Foreign) (table : String) (rid : RowId) :
    e ≠ .transaction (.conflict table rid) := by
  rintro rfl
  exact h (.transaction _)

private theorem follows_insert {records : List (List Value)} {answer : Except ExecError QueryResult}
    (h : db.Alone t) (hknown : table.index < db.catalog.tables.size)
    (hrun : (drive (.insert table records) (.insert table records none) t db).outcome = (answer, db')) :
    (Statement.insert table records).Follows db.catalog db.liveRows answer
      (db'.ended t (endingOf answer)) := by
  obtain ⟨db'', happlied, houtcome⟩ := outcome_insert table h.active records
  rw [hrun] at houtcome
  have hwork : db.Worked t table [] (records.takeWhile (db.catalog.table table).schema.fits) db'' := by
    cases records with
    | nil => exact .idle rfl rfl happlied
    | cons values records => exact .busy happlied
  cases hfault : records.findSome? (db.catalog.table table).schema.recordFault? with
  | none =>
    rw [hfault] at houtcome
    cases houtcome
    have hall : records.all (db.catalog.table table).schema.fits = true := all_fit.mp hfault
    rw [takeWhile_fits hall] at hwork
    refine follows_done h hwork (fun _ => hknown) ?_
    rw [Statement.onTables?, Tables.alter?, TableSchema.inserted?, if_pos hall]
    simp [Database.liveRows]
  | some e =>
    rw [hfault] at houtcome
    cases houtcome
    refine follows_undone h hwork ?_ (by rintro table rid ⟨⟩)
    rw [Statement.onTables?, Tables.alter?, TableSchema.inserted?, if_neg]
    · rfl
    · intro hall
      rw [all_fit.mpr hall] at hfault
      cases hfault

private theorem follows_delete {answer : Except ExecError QueryResult} (h : db.Alone t)
    (hformed : db.catalog.Formed) (hop : s.plan db.catalog (.delete table filter) = .ok op)
    (hrun : (drive (.delete table filter) op t db).outcome = (answer, db')) :
    (Statement.delete table filter).Follows db.catalog db.liveRows answer
      (db'.ended t (endingOf answer)) := by
  rw [plan_delete] at hop
  cases hscan : Plan.writeScan db.catalog table filter [] with
  | error e =>
    rw [hscan] at hop
    cases hop
  | ok scan =>
    rw [hscan] at hop
    cases hop
    have hstmt : (Statement.delete table filter).onTables? db.catalog db.liveRows =
        ((db.catalog.table table).schema.parted? filter (db.liveRows table)).map fun sides =>
          (Tables.put db.liveRows table sides.2, sides.1.length) := by
      rw [Statement.onTables?, hscan, Except.toOption, Option.bind_some, Tables.alter?,
        TableSchema.deleted?, Option.map_map]
      rfl
    rcases outcome_delete db.catalog s.options.policy table filter h.sound h.active with
      ⟨e, hread, houtcome⟩ | ⟨hclear, db'', happlied, houtcome⟩
    · rw [hrun] at houtcome
      cases houtcome
      obtain ⟨hunclear, hgenuine⟩ := QueryTree.readAll_collectTarget_error (h.uncontested .write) hread
      refine follows_undone h (.busy (Database.applied_refl _ table _)) ?_ (ne_conflict hgenuine)
      rw [hstmt, h.parted_unclear hformed hunclear, Option.map_none]
    · rw [hrun] at houtcome
      cases houtcome
      refine follows_done h (.busy happlied) (absurd rfl) ?_
      rw [hstmt, h.parted hformed hclear, Option.map_some, List.append_nil, List.length_map]

section

variable {sets : List Assignment} {targets : List (Nat × Expr)}

private theorem onTables_unclear (h : db.Alone t) (hformed : db.catalog.Formed)
    (htargets : updateTargets db.catalog table sets filter = .ok targets)
    (hclear : ¬db.catalog.Clear table (db.reader t) filter) :
    (Statement.update table sets filter).onTables? db.catalog db.liveRows = none := by
  rw [Statement.onTables?, htargets, Except.toOption, Option.bind_some, Tables.alter?,
    TableSchema.updated?, h.parted_unclear hformed hclear]
  rfl

private theorem onTables_clear (h : db.Alone t) (hformed : db.catalog.Formed)
    (htargets : updateTargets db.catalog table sets filter = .ok targets)
    (hclear : db.catalog.Clear table (db.reader t) filter) :
    (Statement.update table sets filter).onTables? db.catalog db.liveRows =
      ((db.catalog.matching table (db.reader t) .write filter).mapM
        (db.catalog.replacement table targets)).toOption.bind fun changes =>
          if changes.all (fun change => (db.catalog.table table).schema.fits change.2) then
            some (Tables.put db.liveRows table (((db.live table).filter fun v => v.rid ∉
              changes.map (·.1)).map (·.values) ++ changes.map (·.2)), changes.length)
          else none := by
  have hwidth : ∀ v ∈ db.catalog.matching table (db.reader t) .write filter,
      v.values.length = (db.catalog.table table).schema.width :=
    fun v hv => Database.length_values hformed table v (List.mem_filter.mp hv).1
  rw [Statement.onTables?, htargets, Except.toOption, Option.bind_some, Tables.alter?,
    TableSchema.updated?, h.parted hformed hclear, Option.bind_some]
  dsimp only
  rw [Catalog.mapM_replaced hwidth fun target htarget => (mem_updateTargets htargets target htarget).1]
  cases hchanges : (db.catalog.matching table (db.reader t) .write filter).mapM
    (db.catalog.replacement table targets) with
  | error e => rfl
  | ok changes =>
    simp only [Except.toOption, Option.map_some, Option.bind_some, ← rids_of_replacement hchanges,
      List.length_map, List.all_map, Function.comp_def]
    split <;> rfl

end

private theorem follows_update {sets : List Assignment} {answer : Except ExecError QueryResult}
    (h : db.Alone t) (hformed : db.catalog.Formed)
    (hop : s.plan db.catalog (.update table sets filter) = .ok op)
    (hrun : (drive (.update table sets filter) op t db).outcome = (answer, db')) :
    (Statement.update table sets filter).Follows db.catalog db.liveRows answer
      (db'.ended t (endingOf answer)) := by
  rw [plan_update] at hop
  cases htargets : updateTargets db.catalog table sets filter with
  | error e =>
    rw [htargets] at hop
    cases hop
  | ok targets =>
    rw [htargets] at hop
    cases hop
    rcases outcome_update db.catalog s.options.policy table filter h.sound
      (Database.length_values hformed table) h.active sets targets with
      ⟨e, hread, houtcome⟩ | ⟨hclear, changes, hchanges, db'', happlied, houtcome⟩
    · rw [hrun] at houtcome
      cases houtcome
      obtain ⟨hfails, hgenuine⟩ := QueryTree.readAll_collectChange_error
        (Database.length_values hformed table) (h.uncontested .write) hread
      refine follows_undone h (.busy (Database.applied_refl _ table _)) ?_ (ne_conflict hgenuine)
      by_cases hclear : db.catalog.Clear table (db.reader t) filter
      · obtain ⟨e', hchanges⟩ := hfails hclear
        rw [onTables_clear h hformed htargets hclear, hchanges]
        rfl
      · exact onTables_unclear h hformed htargets hclear
    · rw [hrun] at houtcome
      have hstmt := onTables_clear h hformed htargets hclear
      rw [hchanges] at hstmt
      cases hfault : changes.findSome? fun change =>
          (db.catalog.table table).schema.recordFault? change.2 with
      | none =>
        have hall := all_fit.mp hfault
        rw [hfault] at houtcome
        cases houtcome
        simp only [takeWhile_fits hall] at happlied
        refine follows_done h (.busy happlied) (fun hrows => ?_) ?_
        · obtain ⟨change, hchange⟩ := List.exists_mem_of_ne_nil _ (by simpa using hrows)
          obtain ⟨v, hv, _⟩ := mem_of_mapM hchanges hchange
          exact Catalog.lt_size_of_version? (Database.version?_rid h.sound (List.mem_filter.mp hv).1)
        · rw [hstmt]
          exact if_pos hall
      | some e =>
        rw [hfault] at houtcome
        cases houtcome
        refine follows_undone h (.busy happlied) ?_ (by rintro table rid ⟨⟩)
        rw [hstmt]
        refine if_neg fun hall => ?_
        rw [all_fit.mpr hall] at hfault
        cases hfault

private theorem follows_select {query : Select} {answer : Except ExecError QueryResult} (h : db.Alone t)
    (hop : s.plan db.catalog (.select query) = .ok op)
    (hrun : (drive (.select query) op t db).outcome = (answer, db')) :
    (Statement.select query).Follows db.catalog db.liveRows answer (db'.ended t (endingOf answer)) := by
  obtain ⟨q, rfl, hfresh, hread⟩ := plan_select hop
  have hcalm : Calm (fun _ => True) answer := by
    rw [← Turn.answer_of_outcome hrun]
    exact (quiet_drive rfl (QueryTree.quiet_operator hread)).answer
  have hdb := (drive_select_eq query hfresh h.active).2
  rw [Turn.db_of_outcome hrun] at hdb
  have hwork : db.Worked t ⟨0⟩ [] [] db' := by
    rw [hdb, Database.phase]
    split
    · exact .busy (Database.applied_refl _ _ _)
    · exact .idle rfl rfl (Database.applied_refl _ _ _)
  have hcommitted : (db'.ended t .committed).liveRows = db.liveRows := by
    funext id
    rw [Database.liveRows_committed h hwork (absurd rfl)]
    split
    · rename_i hid
      rw [hid]
      simp [Database.liveRows]
    · rfl
  constructor
  case answer =>
    intro hwrites
    cases hwrites
  case calm =>
    rintro table rid rfl
    exact hcalm table rid rfl
  case rows =>
    cases answer with
    | ok result => exact hcommitted
    | error e => exact Database.liveRows_aborted h hwork
  case settled => exact Database.settled_worked h hwork
  case layout =>
    rw [Database.ended_catalog]
    exact Database.layout_worked hwork

private theorem follows_drive {answer : Except ExecError QueryResult} (h : db.Alone t)
    (hformed : db.catalog.Formed) (hstmt : stmt.plain db.catalog = true)
    (hop : s.plan db.catalog stmt = .ok op) (hrun : (drive stmt op t db).outcome = (answer, db')) :
    stmt.Follows db.catalog db.liveRows answer (db'.ended t (endingOf answer)) := by
  cases stmt with
  | select query => exact follows_select h hop hrun
  | insert table records =>
    rw [plan_insert] at hop
    cases hop
    exact follows_insert h (of_decide_eq_true hstmt) hrun
  | delete table filter => exact follows_delete h hformed hop hrun
  | update table sets filter => exact follows_update h hformed hop hrun
  | _ => cases hstmt

private theorem follows_unplanned {e : ExecError} (hsettled : db.Settled)
    (hstmt : stmt.plain db.catalog = true) (hop : s.plan db.catalog stmt = .error e) :
    stmt.Follows db.catalog db.liveRows (.error e) db := by
  have hcalm : ∀ table rid, e ≠ .transaction (.conflict table rid) := by
    rintro table rid rfl
    rw [plan] at hop
    split at hop
    · cases hop
    · rename_i p _
      cases hlower : p.lower db.catalog s.options.policy <;> rw [hlower] at hop <;> cases hop
  have hfails : ∀ _ : stmt.writes = true, stmt.onTables? db.catalog db.liveRows = none := by
    intro hwrites
    cases stmt with
    | insert table records =>
      rw [plan_insert] at hop
      cases hop
    | delete table filter =>
      rw [plan_delete] at hop
      rw [Statement.onTables?]
      cases hscan : Plan.writeScan db.catalog table filter [] with
      | error e' => rfl
      | ok scan =>
        rw [hscan] at hop
        cases hop
    | update table sets filter =>
      rw [plan_update] at hop
      rw [Statement.onTables?]
      cases htargets : updateTargets db.catalog table sets filter with
      | error e' => rfl
      | ok targets =>
        rw [htargets] at hop
        cases hop
    | _ => cases hwrites
  constructor
  case answer =>
    intro hwrites
    rw [hfails hwrites]
    exact ⟨e, rfl⟩
  case calm =>
    rintro table rid ⟨⟩
    exact hcalm table rid rfl
  case rows =>
    cases stmt with
    | select query => rfl
    | insert table records => rw [Statement.after, hfails rfl]
    | delete table filter => rw [Statement.after, hfails rfl]
    | update table sets filter => rw [Statement.after, hfails rfl]
    | _ => cases hstmt
  case settled => exact hsettled
  case layout => exact ⟨rfl, .refl _⟩

private theorem writes_or_select {c : Catalog} (h : stmt.plain c = true) :
    stmt.writes = true ∨ ∃ query, stmt = .select query := by
  cases stmt with
  | select query => exact .inr ⟨query, rfl⟩
  | insert | delete | update => exact .inl rfl
  | _ => cases h

/-- A statement that is committed by itself does to the tables what it does to plain ones. -/
theorem execute_plain (hheld : s.held = none) (hauto : s.options.autoCommit = true)
    (hdb : db.Reachable) (hsettled : db.Settled) (hstmt : stmt.plain db.catalog = true) :
    (s.execute stmt db).session = s ∧
      stmt.Follows db.catalog db.liveRows (s.execute stmt db).result (s.execute stmt db).db := by
  cases hop : s.plan db.catalog stmt with
  | error e =>
    rw [execute_unplanned (writes_or_select hstmt) hop]
    exact ⟨rfl, follows_unplanned hsettled hstmt hop⟩
  | ok op =>
    have hexecute := execute_planned hop
    have halone := Database.alone_begin (Database.sound_of_reachable hdb) hsettled s.options.isolation
    have hcatalog : (db.begin s.options.isolation).2.catalog = db.catalog := Database.catalog_begin _
    have hrows : (db.begin s.options.isolation).2.liveRows = db.liveRows := Database.liveRows_begin _
    obtain ⟨t, db', hbegin⟩ : ∃ t db', db.begin s.options.isolation = (t, db') := ⟨_, _, rfl⟩
    rw [hbegin] at halone hcatalog hrows
    dsimp only at halone hcatalog hrows
    rw [← hcatalog] at hop hstmt
    have hactive : (drive stmt op t db').db.Active t :=
      active_mayDo (works_drive hop halone.active) halone.active
    have hformed : db'.catalog.Formed := hcatalog ▸ Database.formed_of_reachable hdb
    have hfollows := follows_drive halone hformed hstmt hop rfl
    rw [hcatalog, hrows] at hfollows
    obtain ⟨hresult, hsession, hdb⟩ := parts_of_eq (hexecute.trans (run_commits hheld hauto hbegin hactive))
    rw [hresult, hsession, hdb]
    exact ⟨rfl, hfollows⟩

end Session

/-- The rows that a new transaction sees, in the order of their slots. -/
def Database.contents (isolation : Isolation) (db : Database) : Tables :=
  fun table => ((db.begin isolation).2.visibleTo (db.begin isolation).1 table).map (·.values)

theorem Database.contents_eq {db : Database} (hs : db.Sound) (hsettled : db.Settled)
    (isolation : Isolation) : db.contents isolation = db.liveRows := by
  have halone := alone_begin hs hsettled isolation
  funext table
  have hvisible : ((db.begin isolation).2.reader (db.begin isolation).1).visible table =
      (db.begin isolation).2.live table := halone.filter_see .read table
  rw [contents, visibleTo_eq halone.active, hvisible, ← liveRows, liveRows_begin]

theorem Statement.onTables?_congr {c c' : Catalog} (h : c.SameLayout c') (T : Tables)
    (stmt : Statement) : stmt.onTables? c T = stmt.onTables? c' T := by
  cases stmt with
  | insert table records => rw [onTables?, onTables?, h table]
  | delete table filter => rw [onTables?, onTables?, Plan.writeScan_congr h, h table]
  | update table sets filter =>
    simp only [onTables?, Session.updateTargets, Plan.writeScan_congr h, h table]
  | _ => rfl

namespace System

variable {i : Nat} {options : SessionOptions} {c : Catalog} {T : Tables} {w : System}
  {stmt : Statement}

/-- A session is between two statements that are committed by themselves, no transaction is in progress,
and the tables have certain rows. -/
structure Rests (i : Nat) (options : SessionOptions) (c : Catalog) (T : Tables) (w : System) : Prop where
  valid : w.Valid
  session : w.sessions[i]? = some ⟨options, none⟩
  settled : w.db.Settled
  rows : w.db.liveRows = T
  layout : w.db.catalog.tables.size = c.tables.size ∧ c.SameLayout w.db.catalog

private theorem follows_execute (h : w.Rests i options c T) (hauto : options.autoCommit = true)
    (hstmt : stmt.plain c = true) :
    ∃ result, (w.execute i stmt).1 = some result ∧ stmt.Follows c T result (w.execute i stmt).2.db ∧
      (w.execute i stmt).2.sessions = w.sessions := by
  obtain ⟨hsize, hlayout⟩ := h.layout
  have hplain : stmt.plain w.db.catalog = true := by
    cases stmt with
    | insert table records => rwa [Statement.plain, hsize]
    | _ => exact hstmt
  obtain ⟨hsession, hfollows⟩ := Session.execute_plain (s := ⟨options, none⟩) rfl hauto
    h.valid.reachable h.settled hplain
  rw [h.rows] at hfollows
  refine ⟨_, result_execute h.session stmt, ?_, ?_⟩
  · rw [db_execute h.session]
    refine ⟨?_, hfollows.calm, ?_, hfollows.settled, ?_⟩
    · rw [Statement.onTables?_congr hlayout]
      exact hfollows.answer
    · rw [hfollows.rows, Statement.after, Statement.after, Statement.onTables?_congr hlayout]
    · exact ⟨hfollows.layout.1.trans hsize, hlayout.trans hfollows.layout.2⟩
  · rw [execute, h.session]
    dsimp only
    obtain ⟨hlt, hget⟩ := List.getElem?_eq_some_iff.mp h.session
    rw [hsession, ← hget]
    exact List.set_getElem_self hlt

private theorem rests_execute (h : w.Rests i options c T) (hauto : options.autoCommit = true)
    (hstmt : stmt.plain c = true) : (w.execute i stmt).2.Rests i options c (stmt.after c T) := by
  obtain ⟨result, _, hfollows, hsessions⟩ := follows_execute h hauto hstmt
  exact ⟨valid_execute h.valid i stmt, hsessions ▸ h.session, hfollows.settled, hfollows.rows,
    hfollows.layout⟩

private theorem rests_run (h : w.Rests i options c T) (hauto : options.autoCommit = true)
    {stmts : List Statement} (hstmts : ∀ stmt ∈ stmts, stmt.plain c = true) :
    (w.run (stmts.map (.execute i))).Rests i options c (stmts.foldl (Statement.after c) T) := by
  induction stmts generalizing w T with
  | nil => exact h
  | cons stmt stmts ih =>
    obtain ⟨hstmt, hrest⟩ := List.forall_mem_cons.mp hstmts
    exact ih (rests_execute h hauto hstmt) hrest

/-- While no transaction is in progress but those of a session that commits every statement by itself, each
statement does to the tables what it does to plain ones. After any number of statements, a new transaction
of either level sees the rows of the plain tables in their order. A statement that writes answers with the
number of rows that it inserts, removes or replaces, and fails exactly if it fails on the plain tables, which
stay as they are then. None fails with a conflict. -/
theorem contents_run (events : List Event) (i : Nat) (options : SessionOptions)
    (hi : (after events).sessions[i]? = some ⟨options, none⟩) (hauto : options.autoCommit = true)
    (hsettled : (after events).db.Settled) (stmts : List Statement)
    (hstmts : ∀ stmt ∈ stmts, stmt.plain (after events).db.catalog = true) (k : Nat) :
    let c := (after events).db.catalog
    let w := (after events).run ((stmts.take k).map (.execute i))
    let T := (stmts.take k).foldl (Statement.after c) ((after events).db.contents options.isolation)
    (∀ isolation, w.db.contents isolation = T) ∧
      ∀ stmt, stmts[k]? = some stmt → ∃ result, (w.execute i stmt).1 = some result ∧
        (stmt.writes = true → QueryResult.Reports (stmt.onTables? c T) result) ∧
        ∀ table rid, result ≠ .error (.transaction (.conflict table rid)) := by
  intro c w T
  have hvalid := valid_after events
  have hrests : (after events).Rests i options c ((after events).db.contents options.isolation) := by
    refine ⟨hvalid, hi, hsettled, ?_, rfl, .refl c⟩
    rw [Database.contents_eq (Database.sound_of_reachable hvalid.reachable) hsettled]
  have hrun : w.Rests i options c T :=
    rests_run hrests hauto fun stmt hstmt => hstmts stmt (List.mem_of_mem_take hstmt)
  refine ⟨fun isolation => ?_, fun stmt hstmt => ?_⟩
  · rw [Database.contents_eq (Database.sound_of_reachable hrun.valid.reachable) hrun.settled, hrun.rows]
  · obtain ⟨result, hresult, hfollows, _⟩ :=
      follows_execute hrun hauto (hstmts stmt (List.mem_of_getElem? hstmt))
    exact ⟨result, hresult, hfollows.answer, hfollows.calm⟩

def rolledBack : List Event :=
  [.connect { isolation := .repeatableRead, policy := .surfaceAll },
    .operate (.createTable "t" [⟨"a", .integer, false⟩, ⟨"b", .integer, true⟩]), .execute 0 .begin,
    .execute 0 (.insert ⟨0⟩ [[.integer 9, .integer 9]]), .execute 0 .rollback]

/-- An UPDATE that fails when it has replaced a row, and one that does not, between other statements. -/
def fourStatements : List Statement :=
  let a : Expr := .field ⟨"t", "a", .integer⟩
  [.insert ⟨0⟩ [[.integer 1, .integer 5], [.integer 2, .null], [.integer 3, .integer 7]],
    .update ⟨0⟩ [⟨"a", .field ⟨"t", "b", .integer⟩⟩] none,
    .update ⟨0⟩ [⟨"a", .arithmetic .add a (some (.literal (.integer 10)))⟩]
      (some (.comparison .lt a (.literal (.integer 3)))),
    .delete ⟨0⟩ (some (.comparison .eq a (.literal (.integer 11))))]

theorem contents_run_rolledBack :
    let options : SessionOptions := { isolation := .repeatableRead, policy := .surfaceAll }
    let c := (after rolledBack).db.catalog
    let w := (after rolledBack).run ((fourStatements.take 3).map (.execute 0))
    let T := (fourStatements.take 3).foldl (Statement.after c)
      ((after rolledBack).db.contents options.isolation)
    (after rolledBack).sessions[0]? = some ⟨options, none⟩ ∧ options.autoCommit = true ∧
      (after rolledBack).db.Settled ∧ (∀ stmt ∈ fourStatements, stmt.plain c = true) ∧
      T ⟨0⟩ = [[.integer 3, .integer 7], [.integer 11, .integer 5], [.integer 12, .null]] ∧
      (∀ isolation, w.db.contents isolation = T) ∧
      ∀ stmt, fourStatements[3]? = some stmt → ∃ result, (w.execute 0 stmt).1 = some result ∧
        (stmt.writes = true → QueryResult.Reports (stmt.onTables? c T) result) ∧
        ∀ table rid, result ≠ .error (.transaction (.conflict table rid)) :=
  ⟨by decide +kernel, rfl, by decide +kernel, by decide +kernel, by decide +kernel,
    contents_run rolledBack 0 _ (by decide +kernel) rfl (by decide +kernel) fourStatements
      (by decide +kernel) 3⟩

end System

end SnapshotSql
