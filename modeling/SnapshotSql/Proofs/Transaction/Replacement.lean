import SnapshotSql.Proofs.Transaction.WriteGuard
/-! # Replacing a row -/

namespace SnapshotSql

namespace Database

/-- One version of a table was stamped by a transaction number, one was appended with its replacement, and
every other version of every table is as it was. -/
structure Replaced (db : Database) (me : TxId) (table : TableId) (rid : RowId) (values : List Value)
    (new : RowId) (db' : Database) : Prop where
  last : new = (db.catalog.table table).nextRid
  grown : (db'.catalog.table table).versions.size = (db.catalog.table table).versions.size + 1
  stamped : ∃ v, db.version? table rid = some v ∧
    db'.version? table rid = some { v with deleter := some me }
  appended : db'.version? table new = some ⟨new, values, me, none⟩
  kept : ∀ other r, (other, r) ≠ (table, rid) → (other, r) ≠ (table, new) →
    db'.version? other r = db.version? other r

variable {db db' : Database} {t : TxHandle} {table : TableId} {rid : RowId} {me : TxId} {v w : Version}
  {values : List Value}

theorem transaction_counted_self (h : db.Knows t) : (db.counted t).transaction t =
    { db.transaction t with writes := (db.transaction t).writes + 1 } :=
  transaction_adjusted_self h

theorem version?_appended_last (hk : table.index < db.catalog.tables.size) :
    (db.appended table w).version? table (db.catalog.table table).nextRid = some w := by
  simp [version?, appended, Catalog.table_modify_self hk, Table.append, Table.version?, Table.nextRid]

theorem nextRid_stamped (db : Database) (table : TableId) (rid : RowId) (me : TxId) :
    ((db.stamped table rid me).catalog.table table).nextRid = (db.catalog.table table).nextRid := by
  by_cases hk : table.index < db.catalog.tables.size
  · simp [stamped, Catalog.table_modify_self hk, Table.stamp, Table.nextRid]
  · have hk := Nat.le_of_not_lt hk
    rw [Catalog.table_of_size_le hk, Catalog.table_of_size_le (by simpa [stamped] using hk)]

theorem replaced_of_stamped (hv : db.version? table rid = some v)
    (hcatalog : db'.catalog = ((db.stamped table rid me).appended table
      ⟨(db.catalog.table table).nextRid, values, me, none⟩).catalog) :
    db.Replaced me table rid values (db.catalog.table table).nextRid db' := by
  have hk : table.index < (db.stamped table rid me).catalog.tables.size := by
    simpa [stamped] using Catalog.lt_size_of_version? hv
  have hversion : ∀ other r, db'.version? other r = ((db.stamped table rid me).appended table
      ⟨(db.catalog.table table).nextRid, values, me, none⟩).version? other r :=
    fun _ _ => version?_of_catalog_eq hcatalog
  constructor
  · rfl
  · have hsize := congrArg RowId.slot (nextRid_stamped db table rid me)
    simp only [Table.nextRid] at hsize
    rw [hcatalog, appended, Catalog.table_modify_self hk, Table.append, Array.size_push, hsize]
  · refine ⟨v, hv, ?_⟩
    rw [hversion]
    apply version?_appended_of_some
    simp [version?_stamped, hv]
  · rw [hversion, ← nextRid_stamped db table rid me]
    exact version?_appended_last hk
  · intro other r hold hnew
    rw [hversion]
    have hunstamped : (db.stamped table rid me).version? other r = db.version? other r := by
      have hne : ¬(other = table ∧ r = rid) := fun hat => hold (Prod.ext hat.1 hat.2)
      simp [version?_stamped, hne]
    cases hw : db.version? other r with
    | some w => exact version?_appended_of_some (hunstamped.trans hw)
    | none =>
      apply Option.eq_none_iff_forall_ne_some.mpr
      intro w happended
      rcases version?_appended_cases happended with hstored | ⟨rfl, rfl, _⟩
      · rw [hunstamped, hw] at hstored
        cases hstored
      · exact hnew (Prod.ext rfl (nextRid_stamped db other rid me))

end Database

namespace TxHandle

variable {db mid db' : Database} {t : TxHandle} {table : TableId} {rid new : RowId}
  {values : List Value}

theorem deleteRow_refused {e : TxError} (ht : db.Active t)
    (h : (t.deleteRow table rid).run db = .error e mid) : mid = db.begun t := by
  rw [deleteRow_run ht] at h
  split at h
  · cases h
    rfl
  · split at h
    · cases h
      rfl
    · cases h
    · cases h

/-- A deletion that succeeds leaves the version stamped, also when it had the stamp before. -/
theorem deleteRow_stamps (ht : db.Active t) (h : (t.deleteRow table rid).run db = .ok () mid) :
    ∃ (v : Version) (base : Database), db.version? table rid = some v ∧ mid = base.counted t ∧
      base.catalog = (db.stamped table rid (db.start t).1).catalog ∧
      base.transactions = (db.begun t).transactions := by
  rw [deleteRow_run ht] at h
  cases hv : db.version? table rid with
  | none =>
    rw [hv] at h
    cases h
  | some v =>
    rw [hv] at h
    dsimp only at h
    cases hverdict : (db.begun t).registry.deleteVerdict (db.start t).1 v with
    | refuse =>
      rw [hverdict] at h
      cases h
    | done =>
      rw [hverdict] at h
      cases h
      have hsame : (db.catalog.table table).stamp rid (some (db.start t).1) = db.catalog.table table :=
        Table.stamp_eq_self _ hv (Database.deleteVerdict_done hverdict)
      have hcatalog : (db.begun t).catalog = (db.stamped table rid (db.start t).1).catalog := by
        calc (db.begun t).catalog
          _ = db.catalog := Database.begun_catalog
          _ = db.catalog.modify table fun table => table := (Catalog.modify_id _ _).symm
          _ = (db.stamped table rid (db.start t).1).catalog := Catalog.modify_congr hsame.symm
      exact ⟨v, db.begun t, rfl, rfl, hcatalog, rfl⟩
    | stamp =>
      rw [hverdict] at h
      cases h
      have hcatalog : ((db.begun t).stamped table rid (db.start t).1).catalog =
          (db.stamped table rid (db.start t).1).catalog := by
        simp only [Database.stamped, Database.begun_catalog]
      exact ⟨v, (db.begun t).stamped table rid (db.start t).1, rfl, rfl, hcatalog, rfl⟩

/-- After a deletion that succeeded, new values that fit are appended without fail. -/
theorem insertRow_stamped (ht : db.Active t) {base : Database}
    (hcatalog : base.catalog = (db.stamped table rid (db.start t).1).catalog)
    (htransactions : base.transactions = (db.begun t).transactions)
    (hfits : (db.catalog.table table).schema.recordFault? values = none) :
    (t.insertRow table values).run (base.counted t) =
      .ok (db.catalog.table table).nextRid (((base.counted t).appended table
        ⟨(db.catalog.table table).nextRid, values, (db.start t).1, none⟩).counted t) ∧
    (((base.counted t).appended table
        ⟨(db.catalog.table table).nextRid, values, (db.start t).1, none⟩).counted t).transaction t =
      { db.transaction t with
        started := some (db.start t), writes := (db.transaction t).writes + 2 } := by
  have hknows : base.Knows t := by
    rw [Database.Knows, htransactions]
    exact Database.knows_begun.mpr ht.1
  have hbase : base.transaction t = { db.transaction t with started := some (db.start t) } := by
    rw [Database.transaction, htransactions]
    exact Database.transaction_begun_self ht.1
  have hmid : (base.counted t).transaction t =
      { db.transaction t with
        started := some (db.start t), writes := (db.transaction t).writes + 1 } := by
    rw [Database.transaction_counted_self hknows, hbase]
  have hactive : (base.counted t).Active t := by
    refine ⟨Database.knows_adjusted.mpr hknows, ?_⟩
    rw [hmid]
    exact ht.2
  have hstarted : ((base.counted t).transaction t).started = some (db.start t) := by rw [hmid]
  have htable : ((base.counted t).catalog.table table).nextRid = (db.catalog.table table).nextRid := by
    rw [← Database.nextRid_stamped db table rid (db.start t).1, ← hcatalog]
    rfl
  have hfits : ((base.counted t).catalog.table table).schema.recordFault? values = none := by
    have hschema : ((base.counted t).catalog.table table).schema = (db.catalog.table table).schema := by
      change (base.catalog.table table).schema = _
      rw [hcatalog]
      exact Catalog.schema_modify (f := (·.stamp rid (some (db.start t).1))) (fun _ => rfl) table
    rw [hschema, hfits]
  constructor
  · rw [insertRow_run hactive, hfits, Database.begun_of_started hstarted,
      Database.start_of_started hstarted, htable]
  · have happended : ((base.counted t).appended table
        ⟨(db.catalog.table table).nextRid, values, (db.start t).1, none⟩).Knows t := hactive.1
    rw [Database.transaction_counted_self happended]
    exact congrArg (fun tx : Transaction => { tx with writes := tx.writes + 1 }) hmid

/-- All that an update can come to: it is refused before it touched a table, or it replaces a version. -/
theorem updateRow_cases (ht : db.Active t) (table : TableId) (rid : RowId) (values : List Value) :
    (∃ e db', (t.updateRow table rid values).run db = .error e db' ∧
      (db' = db ∨ db' = db.begun t)) ∨
    ∃ db', (t.updateRow table rid values).run db = .ok (db.catalog.table table).nextRid db' ∧
      db.Replaced (db.start t).1 table rid values (db.catalog.table table).nextRid db' ∧
      db'.transaction t = { db.transaction t with
        started := some (db.start t), writes := (db.transaction t).writes + 2 } := by
  rw [updateRow_run]
  cases hfits : (db.catalog.table table).schema.recordFault? values with
  | some e => exact .inl ⟨.storage (.schema e), db, rfl, .inl rfl⟩
  | none =>
    cases hdelete : (t.deleteRow table rid).run db with
    | error e mid => exact .inl ⟨e, mid, rfl, .inr (deleteRow_refused ht hdelete)⟩
    | ok _ mid =>
      right
      obtain ⟨v, base, hv, rfl, hcatalog, htransactions⟩ := deleteRow_stamps ht hdelete
      obtain ⟨hinsert, htransaction⟩ := insertRow_stamped ht hcatalog htransactions hfits
      have hreplaced : ((base.counted t).appended table
          ⟨(db.catalog.table table).nextRid, values, (db.start t).1, none⟩).catalog =
            ((db.stamped table rid (db.start t).1).appended table
              ⟨(db.catalog.table table).nextRid, values, (db.start t).1, none⟩).catalog :=
        congrArg (Catalog.modify · table _) hcatalog
      exact ⟨_, hinsert, Database.replaced_of_stamped hv hreplaced, htransaction⟩

/-- An update does all of its work or none. If it fails, then every table is as it was, and so is the number
of versions that the transaction has written. If it succeeds, then the version that it names carries the
number of the transaction, the new values stand at the end of the table under that number, every other version
of every table is as it was, and the transaction has written two versions more. This is so in every database,
for transactions that are active and for those that have ended. -/
theorem updateRow_all_or_nothing (ht : db.Knows t) (table : TableId) (rid : RowId)
    (values : List Value) :
    (∀ e db', (t.updateRow table rid values).run db = .error e db' →
      db'.catalog = db.catalog ∧ (db'.transaction t).writes = (db.transaction t).writes) ∧
    ∀ new db', (t.updateRow table rid values).run db = .ok new db' →
      (db'.transaction t).writes = (db.transaction t).writes + 2 ∧
        ∃ me, db'.number? t = some me ∧ db.Replaced me table rid values new db' := by
  cases hending : (db.transaction t).ending with
  | some how =>
    obtain ⟨e, hrun⟩ := updateRow_run_ended hending table rid values
    rw [hrun]
    constructor
    · intro _ _ hfailed
      cases hfailed
      exact ⟨rfl, rfl⟩
    · exact nofun
  | none =>
    rcases updateRow_cases ⟨ht, hending⟩ table rid values with
      ⟨e, db', hrun, hdb⟩ | ⟨db', hrun, hreplaced, htransaction⟩
    · rw [hrun]
      constructor
      · intro _ _ hfailed
        cases hfailed
        rcases hdb with rfl | rfl
        · exact ⟨rfl, rfl⟩
        · exact ⟨Database.begun_catalog, by rw [Database.transaction_begun_self ht]⟩
      · exact nofun
    · rw [hrun]
      constructor
      · exact nofun
      · intro _ _ hdone
        cases hdone
        have hnumber : db'.number? t = some (db.start t).1 := by
          rw [Database.number?, htransaction]
          rfl
        exact ⟨by rw [htransaction], (db.start t).1, hnumber, hreplaced⟩

/-- A transaction that has not written yet replaces a row that another one has committed, and fails to replace
one that is not there. -/
theorem updateRow_all_or_nothing_replaceCommitted :
    let db := History.replaceCommitted.final
    db.Knows ⟨1⟩ ∧
      (∃ db' me, (updateRow ⟨1⟩ ⟨0⟩ ⟨0⟩ [.integer 2]).run db = .ok ⟨1⟩ db' ∧
        db'.number? ⟨1⟩ = some me ∧ db.Replaced me ⟨0⟩ ⟨0⟩ [.integer 2] ⟨1⟩ db') ∧
      ∃ e db', (updateRow ⟨1⟩ ⟨0⟩ ⟨7⟩ [.integer 2]).run db = .error e db' ∧ db'.catalog = db.catalog := by
  have hknows : History.replaceCommitted.final.Knows ⟨1⟩ := by decide
  obtain ⟨_, hdone⟩ := updateRow_all_or_nothing hknows ⟨0⟩ ⟨0⟩ [.integer 2]
  obtain ⟨hnothing, _⟩ := updateRow_all_or_nothing hknows ⟨0⟩ ⟨7⟩ [.integer 2]
  obtain ⟨_, me, hme, hreplaced⟩ := hdone ⟨1⟩ _ rfl
  exact ⟨hknows, ⟨_, me, rfl, hme, hreplaced⟩, _, _, rfl, (hnothing _ _ rfl).1⟩

end TxHandle

end SnapshotSql
