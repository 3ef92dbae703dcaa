import SnapshotSql.Proofs.Session.System
import SnapshotSql.Proofs.Session.Targets
import SnapshotSql.Proofs.Transaction.Batches
import SnapshotSql.Proofs.Transaction.Sight
import Mathlib.Data.List.TakeWhile
/-! # What statements change -/

namespace SnapshotSql

namespace Database

variable {c : Catalog} {db : Database} {t : TxHandle} {table : TableId} {filter : Option Expr}

theorem mayDelete_matching (hs : db.Sound) {v : Version}
    (h : v ∈ c.matching table (db.reader t) .write filter) :
    (db.begun t).MayDelete (db.start t).1 table v.rid := by
  obtain ⟨hmem, hv⟩ := List.mem_filter.mp h
  have hsee := (of_decide_eq_true hv).1
  have hversion := version?_rid hs hmem
  refine ⟨v, ?_, ?_⟩
  · rwa [version?_of_catalog_eq begun_catalog]
  · rw [Registry.deleteVerdict_of_visible hsee]
    exact nofun

end Database

namespace Session

variable {c : Catalog} {t : TxHandle} {db db' : Database} {table : TableId} {filter : Option Expr}
  {policy : ConflictPolicy} {result : QueryResult}

theorem modifying_ok {count : Nat} {a : Action TxError Unit} {db' : Database}
    (h : a.run db = .ok () db') : modifying count a db = (.ok (.modified count), db') := by
  rw [modifying, h]

theorem modifying_error {count : Nat} {a : Action TxError Unit} {e : TxError} {db' : Database}
    (h : a.run db = .error e db') : modifying count a db = (.error (.transaction e), db') := by
  rw [modifying, h]

/-- A DELETE that was planned on `c` stamps the versions that it sees and that meet its condition, or only
starts its transaction. -/
theorem outcome_delete (c : Catalog) (policy : ConflictPolicy) (table : TableId) (filter : Option Expr)
    (hs : db.Sound) (ht : db.Active t) :
    (∃ e, (QueryTree.targets c policy table filter).readAll (db.reader t)
        (Operator.collectTarget table (QueryTree.targets c policy table filter).operator.kind db)
        #[] = .error e ∧
      (drive (.delete table filter) (.delete table (QueryTree.targets c policy table
        filter).operator none) t db).outcome = (.error e, db.begun t)) ∨
    c.Clear table (db.reader t) filter ∧ ∃ db',
      (db.begun t).Applied (db.start t).1 table
        ((c.matching table (db.reader t) .write filter).map (·.rid)) [] db' ∧
      (drive (.delete table filter) (.delete table (QueryTree.targets c policy table
        filter).operator none) t db).outcome =
        (.ok (.modified (c.matching table (db.reader t) .write filter).length), db') := by
  rw [drive_delete table filter (QueryTree.fresh_targets ..) ht, QueryTree.readThen,
    QueryTree.readsTouch_targets]
  cases hread : (QueryTree.targets c policy table filter).readAll (db.reader t)
    (Operator.collectTarget table _ db) #[] with
  | error e => exact .inl ⟨e, rfl, rfl⟩
  | ok rids =>
    obtain ⟨hclear, hrids⟩ := QueryTree.readAll_collectTarget hread
    have hmay : ∀ rid ∈ rids.toList, (db.begun t).MayDelete (db.start t).1 table rid := by
      rw [hrids]
      intro rid hrid
      obtain ⟨v, hv, rfl⟩ := List.mem_map.mp hrid
      exact Database.mayDelete_matching hs hv
    obtain ⟨db', hrun, happlied⟩ := Operator.deleteRows_applied rids.toList
      (Database.sound_change hs (.start ht)) (Database.active_begun ht)
      (Database.number?_begun ht.1) hmay
    have hsize : rids.size = (c.matching table (db.reader t) .write filter).length := by
      rw [← Array.length_toList, hrids, List.length_map]
    rw [hrids] at happlied
    rw [← hsize]
    exact .inr ⟨hclear, db', happlied, modifying_ok hrun⟩

/-- An UPDATE that was planned on `c` replaces the versions that it sees and that meet its condition up to
the first whose new values do not fit, or only starts its transaction. -/
theorem outcome_update (c : Catalog) (policy : ConflictPolicy) (table : TableId)
    (filter : Option Expr) (hs : db.Sound)
    (hwidth : ∀ v ∈ (db.reader t).versions table, v.values.length = (c.table table).schema.width)
    (ht : db.Active t) (sets : List Assignment) (targets : List (Nat × Expr)) :
    (∃ e, (QueryTree.targets c policy table filter).readAll (db.reader t)
        (Operator.collectChange table targets
          (QueryTree.targets c policy table filter).operator.kind db) #[] = .error e ∧
      (drive (.update table sets filter) (.update table targets (QueryTree.targets c policy table
        filter).operator none) t db).outcome = (.error e, db.begun t)) ∨
    c.Clear table (db.reader t) filter ∧ ∃ changes,
      (c.matching table (db.reader t) .write filter).mapM
        (c.replacement table targets) = .ok changes ∧
      ∃ db', let taken := changes.takeWhile fun change =>
            (db.catalog.table table).schema.fits change.2
        (db.begun t).Applied (db.start t).1 table (taken.map (·.1)) (taken.map (·.2)) db' ∧
        (drive (.update table sets filter) (.update table targets (QueryTree.targets c
          policy table filter).operator none) t db).outcome =
          match changes.findSome? fun change =>
            (db.catalog.table table).schema.recordFault? change.2 with
          | none => (.ok (.modified changes.length), db')
          | some e => (.error (.transaction (.storage (.schema e))), db') := by
  rw [drive_update table sets filter targets (QueryTree.fresh_targets ..) ht, QueryTree.readThen,
    QueryTree.readsTouch_targets]
  cases hread : (QueryTree.targets c policy table filter).readAll (db.reader t)
    (Operator.collectChange table targets _ db) #[] with
  | error e => exact .inl ⟨e, rfl, rfl⟩
  | ok changes =>
    obtain ⟨hclear, hchanges⟩ := QueryTree.readAll_collectChange hwidth hread
    have hmay : ∀ change ∈ changes.toList, (db.begun t).MayDelete (db.start t).1 table change.1 := by
      intro change hchange
      obtain ⟨v, hv, hvchange⟩ := mem_of_mapM hchanges hchange
      obtain ⟨values, _, rfl⟩ := map_eq_ok.mp hvchange
      exact Database.mayDelete_matching hs hv
    obtain ⟨db', happlied, hrun⟩ := Operator.updateRows_applied changes.toList
      (Database.sound_change hs (.start ht)) (Database.active_begun ht)
      (Database.number?_begun ht.1) hmay
    rw [Database.begun_catalog] at happlied hrun
    refine .inr ⟨hclear, changes.toList, hchanges, db', happlied, ?_⟩
    cases hfault : changes.toList.findSome? fun change =>
        (db.catalog.table table).schema.recordFault? change.2 with
    | none =>
      rw [hfault] at hrun
      rw [Array.length_toList]
      exact modifying_ok hrun
    | some e =>
      rw [hfault] at hrun
      exact modifying_error hrun

theorem applied_delete (hs : db.Sound) (ht : db.Active t)
    (hrun : (drive (.delete table filter) (.delete table (QueryTree.targets c policy table
      filter).operator none) t db).outcome = (.ok result, db')) :
    c.Clear table (db.reader t) filter ∧
      (db.begun t).Applied (db.start t).1 table
        ((c.matching table (db.reader t) .write filter).map (·.rid)) [] db' ∧
      result = .modified (c.matching table (db.reader t) .write filter).length := by
  have houtcome := outcome_delete c policy table filter hs ht
  rw [hrun] at houtcome
  rcases houtcome with ⟨e, _, houtcome⟩ | ⟨hclear, db'', happlied, houtcome⟩
  · cases houtcome
  · cases houtcome
    exact ⟨hclear, happlied, rfl⟩

theorem rids_of_replacement {vs : List Version} {targets : List (Nat × Expr)}
    {changes : List (RowId × List Value)} (h : vs.mapM (c.replacement table targets) = .ok changes) :
    changes.map (·.1) = vs.map (·.rid) := by
  induction vs generalizing changes with
  | nil =>
    cases h
    rfl
  | cons v vs ih =>
    obtain ⟨change, rest, hchange, hrest, rfl⟩ := mapM_eq_ok_cons h
    obtain ⟨values, _, rfl⟩ := map_eq_ok.mp hchange
    rw [List.map_cons, List.map_cons, ih hrest]

theorem applied_update {sets : List Assignment} {targets : List (Nat × Expr)} (hs : db.Sound)
    (hwidth : ∀ v ∈ (db.reader t).versions table, v.values.length = (c.table table).schema.width)
    (ht : db.Active t) (hrun : (drive (.update table sets filter) (.update table targets
      (QueryTree.targets c policy table filter).operator none) t db).outcome = (.ok result, db')) :
    c.Clear table (db.reader t) filter ∧ ∃ changes,
      (c.matching table (db.reader t) .write filter).mapM (c.replacement table targets) =
        .ok changes ∧
      (∀ change ∈ changes, (db.catalog.table table).schema.recordFault? change.2 = none) ∧
      (db.begun t).Applied (db.start t).1 table (changes.map (·.1)) (changes.map (·.2)) db' ∧
      result = .modified changes.length := by
  have houtcome := outcome_update c policy table filter hs hwidth ht sets targets
  rw [hrun] at houtcome
  rcases houtcome with ⟨e, _, houtcome⟩ | ⟨hclear, changes, hmap, db'', happlied, houtcome⟩
  · cases houtcome
  · cases hfault : changes.findSome? fun change =>
      (db.catalog.table table).schema.recordFault? change.2 with
    | some e =>
      rw [hfault] at houtcome
      cases houtcome
    | none =>
      rw [hfault] at houtcome
      cases houtcome
      have hfits := List.findSome?_eq_none_iff.mp hfault
      have hall : changes.takeWhile (fun change =>
          (db.catalog.table table).schema.fits change.2) = changes := by
        apply List.takeWhile_eq_self_iff.mpr
        intro change hchange
        rw [TableSchema.fits, hfits change hchange]
        rfl
      simp only [hall] at happlied
      exact ⟨hclear, changes, hmap, hfits, happlied, rfl⟩

private theorem insertRows_begun (ht : db.Active t) (values : List Value)
    (records : List (List Value)) :
    (Operator.insertRows t table (values :: records)).run (db.begun t) =
      (Operator.insertRows t table (values :: records)).run db := by
  have hrow : (t.insertRow table values).run (db.begun t) = (t.insertRow table values).run db := by
    rw [TxHandle.insertRow_run ht, TxHandle.insertRow_run (Database.active_begun ht),
      Database.begun_catalog, Database.begun_begun ht.1, Database.start_begun ht.1]
  simp only [Operator.insertRows, EStateM.run_bind, hrow]

theorem outcome_insert (table : TableId) (ht : db.Active t) (records : List (List Value)) :
    ∃ db', (db.phase t !records.isEmpty).Applied (db.start t).1 table []
        (records.takeWhile (db.catalog.table table).schema.fits) db' ∧
      (drive (.insert table records) (.insert table records none) t db).outcome =
        match records.findSome? (db.catalog.table table).schema.recordFault? with
        | none => (.ok (.modified records.length), db')
        | some e => (.error (.transaction (.storage (.schema e))), db') := by
  rw [drive_insert]
  cases records with
  | nil => exact ⟨db, Database.applied_refl _ table db, rfl⟩
  | cons values records =>
    obtain ⟨db', happlied, hrun⟩ := Operator.insertRows_applied (values :: records)
      (Database.active_begun ht) (Database.number?_begun ht.1)
    rw [Database.begun_catalog] at happlied hrun
    rw [insertRows_begun ht] at hrun
    refine ⟨db', happlied, ?_⟩
    cases hfault : (values :: records).findSome? (db.catalog.table table).schema.recordFault? with
    | none =>
      rw [hfault] at hrun
      exact modifying_ok hrun
    | some e =>
      rw [hfault] at hrun
      exact modifying_error hrun

end Session

end SnapshotSql
