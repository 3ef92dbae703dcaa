import SnapshotSql.Transaction.Basic
import Mathlib.Tactic.Common
/-! # Effects of transactions -/

namespace SnapshotSql

namespace Registry

def Registered (r : Registry) (x : TxId) : Prop := 0 < x.number ∧ x.number ≤ r.statuses.size

variable {r : Registry} {x y : TxId} {how : Ending}

theorem registered_register (h : r.Registered x) : r.register.2.Registered x := by
  simp only [Registered, register, Array.size_push] at h ⊢
  omega

theorem registered_register_new (r : Registry) : r.register.2.Registered r.register.1 := by
  simp [Registered, register]

theorem registered_of_register (h : r.register.2.Registered x) :
    r.Registered x ∨ x = r.register.1 := by
  obtain ⟨n⟩ := x
  simp only [Registered, register, Array.size_push, TxId.mk.injEq] at h ⊢
  omega

theorem not_registered_new (r : Registry) : ¬r.Registered r.register.1 := by
  simp [Registered, register]

theorem status_register (h : r.Registered x) : r.register.2.status x = r.status x := by
  obtain ⟨_ | n⟩ := x
  · simp [Registered] at h
  · have hn : n < r.statuses.size := Nat.lt_of_succ_le h.2
    simp [status, register, Array.getElem?_push, Nat.ne_of_lt hn]

theorem status_register_new (r : Registry) : r.register.2.status r.register.1 = .active := by
  simp [status, register]

@[simp] theorem registered_finish : (r.finish x how).Registered y ↔ r.Registered y := by
  obtain ⟨_ | n⟩ := x <;> simp [Registered, finish]

theorem status_finish_self (h : r.Registered x) : (r.finish x how).status x = .ended how := by
  obtain ⟨_ | n⟩ := x
  · simp [Registered] at h
  · have hn : n < r.statuses.size := Nat.lt_of_succ_le h.2
    simp [status, finish, hn]

theorem status_finish_of_ne (h : y ≠ x) : (r.finish x how).status y = r.status y := by
  obtain ⟨_ | n⟩ := x
  · rfl
  · obtain ⟨_ | m⟩ := y
    · rfl
    · have hne : n ≠ m := by
        rintro rfl
        exact h rfl
      simp [status, finish, hne]

theorem mem_active : x ∈ r.active ↔ r.Registered x ∧ r.status x = .active := by
  obtain ⟨n⟩ := x
  simp only [active, Registered, List.mem_filter, List.mem_map, List.mem_range, TxId.mk.injEq,
    decide_eq_true_eq]
  constructor
  · rintro ⟨⟨m, hm, rfl⟩, hs⟩
    exact ⟨⟨by omega, by omega⟩, hs⟩
  · rintro ⟨⟨hpos, hle⟩, hs⟩
    exact ⟨⟨n - 1, by omega, by omega⟩, hs⟩

theorem snapshot_sees (r : Registry) (hpos : 0 < x.number) :
    r.snapshot.sees x = true ↔ r.Registered x ∧ r.status x ≠ .active := by
  by_cases h : r.Registered x
  · have hlt : x.number < r.statuses.size + 1 := Nat.lt_succ_of_le h.2
    simp [Snapshot.sees, snapshot, hlt, mem_active, h]
  · have hge : ¬x.number < r.statuses.size + 1 := by
      simp only [Registered] at h
      omega
    simp [Snapshot.sees, snapshot, hge, h]

end Registry

namespace Catalog

variable {c : Catalog} {id other : TableId} {f : Table → Table}

@[simp] theorem size_modify : (c.modify id f).tables.size = c.tables.size := by
  simp [modify]

theorem table_modify_of_ne (h : other ≠ id) : (c.modify id f).table other = c.table other := by
  have hne : id.index ≠ other.index := by
    intro he
    exact h (by cases id; cases other; simp_all)
  simp [table, modify, Array.getElem?_modify, hne]

theorem table_modify_self (h : id.index < c.tables.size) :
    (c.modify id f).table id = f (c.table id) := by
  simp only [table, modify, Array.getElem?_modify, if_true, Array.getElem?_eq_getElem h]
  rfl

/-- A handle of no table stands for a table without columns and rows, which nothing changes. -/
theorem table_of_size_le (h : c.tables.size ≤ id.index) : c.table id = default := by
  simp [table, Array.getElem?_eq_none h]

theorem lt_size_of_version? {slot : Nat} {v : Version} (h : (c.table id).version? slot = some v) :
    id.index < c.tables.size := by
  by_contra hsize
  rw [table_of_size_le (Nat.le_of_not_lt hsize)] at h
  cases h

theorem schema_modify (h : ∀ t, (f t).schema = t.schema) (other : TableId) :
    ((c.modify id f).table other).schema = (c.table other).schema := by
  by_cases hother : other = id
  · subst hother
    by_cases hk : other.index < c.tables.size
    · rw [table_modify_self hk, h]
    · have hk := Nat.le_of_not_lt hk
      rw [table_of_size_le hk, table_of_size_le (by simpa using hk)]
  · rw [table_modify_of_ne hother]

@[simp] theorem size_adopt (c : Catalog) (schema : TableSchema) :
    (c.adopt schema).2.tables.size = c.tables.size + 1 := by
  simp [adopt]

theorem table_adopt_self (c : Catalog) (schema : TableSchema) :
    (c.adopt schema).2.table ⟨c.tables.size⟩ = .empty schema := by
  simp [adopt, table]

theorem table_adopt_of_ne (schema : TableSchema) (h : id.index ≠ c.tables.size) :
    (c.adopt schema).2.table id = c.table id := by
  simp [adopt, table, Array.getElem?_push, h]

theorem create_eq_ok {c' : Catalog} {name : String} {columns : List Column}
    (h : c.create name columns = .ok (id, c')) :
    c.find? name = none ∧ ∃ schema, TableSchema.create name columns = .ok schema ∧
      id = ⟨c.tables.size⟩ ∧
      c' = { (c.adopt schema).2 with entries := insertEntry name ⟨c.tables.size⟩ c.entries } := by
  unfold create at h
  split at h
  · cases h
  · rename_i hfree
    split at h
    · cases h
    · rename_i schema hschema
      cases h
      exact ⟨by simpa [exists?] using hfree, schema, hschema, rfl, rfl⟩

theorem rename_eq_ok {c' : Catalog} {old new : String} (h : c.rename old new = .ok c') :
    c.find? new = none ∧ ∃ id, c.find? old = some id ∧
      c' = { c.modify id fun t => { t with schema := { t.schema with name := new } } with
        entries := insertEntry new id (c.entries.filter (·.1 != old)) } := by
  unfold rename at h
  split at h
  · cases h
  · rename_i hfree
    split at h
    · cases h
    · rename_i id hfound
      cases h
      exact ⟨by simpa [exists?] using hfree, id, hfound, rfl⟩

end Catalog

namespace Database

/-- The handle belongs to a transaction of the database. -/
def Knows (db : Database) (t : TxHandle) : Prop := t.index < db.transactions.size

instance (db : Database) (t : TxHandle) : Decidable (db.Knows t) := inferInstanceAs (Decidable (_ < _))

/-- The transaction can still perform operations. -/
def Active (db : Database) (t : TxHandle) : Prop := db.Knows t ∧ (db.transaction t).ending = none

/-- The number of a transaction that has started. -/
def number? (db : Database) (t : TxHandle) : Option TxId := (db.transaction t).started.map (·.1)

/-- The version stored at a row id of a table. -/
def version? (db : Database) (table : TableId) (rid : RowId) : Option Version :=
  (db.catalog.table table).version? rid.slot

def adjusted (t : TxHandle) (f : Transaction → Transaction) (db : Database) : Database :=
  { db with transactions := db.transactions.modify t.index f }

/-- The database after a transaction got its number and the snapshot that goes with it. -/
def registered (t : TxHandle) (db : Database) : Database :=
  let (id, registry) := db.registry.register
  adjusted t (fun tx => { tx with started := some (id, registry.snapshot) }) { db with registry }

/-- The database after a transaction started, unless it had already. -/
def begun (t : TxHandle) (db : Database) : Database :=
  if (db.transaction t).started.isSome then db else db.registered t

/-- The number and snapshot of a transaction, as soon as it starts. -/
def start (t : TxHandle) (db : Database) : TxId × Snapshot :=
  (db.transaction t).started.getD (db.registry.register.1, db.registry.register.2.snapshot)

def counted (t : TxHandle) (db : Database) : Database :=
  db.adjusted t fun tx => { tx with writes := tx.writes + 1 }

def appended (table : TableId) (v : Version) (db : Database) : Database :=
  { db with catalog := db.catalog.modify table (·.append v) }

def stamped (table : TableId) (rid : RowId) (me : TxId) (db : Database) : Database :=
  { db with catalog := db.catalog.modify table (·.stamp rid (some me)) }

/-- The database after a transaction ended. -/
def ended (t : TxHandle) (how : Ending) (db : Database) : Database :=
  let db' := db.adjusted t fun tx => { tx with ending := some how }
  match db.number? t with
  | none => db'
  | some x => { db' with registry := db.registry.finish x how }

variable {db : Database} {t u : TxHandle} {f : Transaction → Transaction}

@[simp] theorem adjusted_catalog : (db.adjusted t f).catalog = db.catalog := rfl

@[simp] theorem adjusted_registry : (db.adjusted t f).registry = db.registry := rfl

@[simp] theorem knows_adjusted : (db.adjusted t f).Knows u ↔ db.Knows u := by
  simp [Knows, adjusted]

theorem transaction_adjusted_self (h : db.Knows t) :
    (db.adjusted t f).transaction t = f (db.transaction t) := by
  simp only [transaction, adjusted, Array.getElem?_modify, if_true, Array.getElem?_eq_getElem h]
  rfl

theorem transaction_adjusted_of_not_knows (h : ¬db.Knows t) : db.adjusted t f = db := by
  have hsize : db.transactions.size ≤ t.index := Nat.le_of_not_lt h
  have hmod : db.transactions.modify t.index f = db.transactions := by
    ext i hi hi'
    · simp
    · have hne : t.index ≠ i := by omega
      simp [Array.getElem_modify, hne]
  simp only [adjusted, hmod]

theorem transaction_adjusted_of_ne (h : u ≠ t) :
    (db.adjusted t f).transaction u = db.transaction u := by
  have hne : t.index ≠ u.index := by
    intro he
    exact h (by cases t; cases u; simp_all)
  simp [transaction, adjusted, Array.getElem?_modify, hne]

@[simp] theorem begun_catalog : (db.begun t).catalog = db.catalog := by
  unfold begun
  split <;> rfl

@[simp] theorem knows_begun : (db.begun t).Knows u ↔ db.Knows u := by
  unfold begun
  split
  · rfl
  · simp [registered, Knows, adjusted]

theorem transaction_begun_of_ne (h : u ≠ t) : (db.begun t).transaction u = db.transaction u := by
  unfold begun
  split
  · rfl
  · exact transaction_adjusted_of_ne h

theorem transaction_begun_self (h : db.Knows t) :
    (db.begun t).transaction t = { db.transaction t with started := some (db.start t) } := by
  unfold begun start
  split
  · rename_i hs
    obtain ⟨s, hs⟩ := Option.isSome_iff_exists.mp hs
    cases htx : db.transaction t
    simp_all
  · rename_i hs
    rw [registered, transaction_adjusted_self (by simpa [Knows] using h)]
    simp_all [transaction]

theorem started_begun (h : db.Knows t) :
    ((db.begun t).transaction t).started = some (db.start t) := by
  rw [transaction_begun_self h]

theorem start_begun (h : db.Knows t) : (db.begun t).start t = db.start t := by
  rw [start, started_begun h, Option.getD_some]

theorem begun_begun (h : db.Knows t) : (db.begun t).begun t = db.begun t := by
  conv_lhs => rw [begun]
  simp [started_begun h]

theorem active_begun (h : db.Active t) : (db.begun t).Active t := by
  refine ⟨knows_begun.mpr h.1, ?_⟩
  rw [transaction_begun_self h.1]
  exact h.2

theorem number?_begun (h : db.Knows t) : (db.begun t).number? t = some (db.start t).1 := by
  simp [number?, started_begun h]

end Database

namespace TxHandle

variable {db : Database} {t : TxHandle}

theorem start_run_open (h : (db.transaction t).ending = none) :
    t.start.run db = .ok (db.start t) (db.begun t) := by
  cases hs : (db.transaction t).started with
  | some r =>
    simp only [TxHandle.start, EStateM.run_bind, EStateM.run_get, h, hs, Database.start,
      Database.begun]
    rfl
  | none =>
    simp only [TxHandle.start, EStateM.run_bind, EStateM.run_get, h, hs, Database.start,
      Database.begun]
    rfl

theorem start_run (h : db.Active t) : t.start.run db = .ok (db.start t) (db.begun t) :=
  start_run_open h.2

theorem start_run_ended {how : Ending} (h : (db.transaction t).ending = some how) :
    t.start.run db = .error (.notActive t.label how) db := by
  simp only [TxHandle.start, EStateM.run_bind, EStateM.run_get, h]
  rfl

theorem readSnapshot_run_ended {how : Ending} (h : (db.transaction t).ending = some how) :
    t.readSnapshot.run db = .error (.notActive t.label how) db := by
  simp only [readSnapshot, EStateM.run_bind, start_run_ended h]

theorem readSnapshot_run (h : db.Active t) :
    t.readSnapshot.run db =
      .ok (if (db.transaction t).isolation.pinsSnapshot then (db.start t).2
        else (db.begun t).registry.snapshot) (db.begun t) := by
  simp only [readSnapshot, EStateM.run_bind, start_run h, EStateM.run_get,
    Database.transaction_begun_self h.1]
  rfl

theorem visibility_run (h : db.Active t) (s : Snapshot) (access : Access) (v : Version) :
    (t.visibility s access v).run db =
      .ok ((db.begun t).registry.visibility (db.start t).1 s access v) (db.begun t) := by
  simp only [visibility, EStateM.run_bind, start_run h, EStateM.run_get]
  rfl

theorem countWrite_run : (countWrite t : Action ε Unit).run db = .ok () (db.counted t) := rfl

theorem insertRow_run_ended {how : Ending} (h : (db.transaction t).ending = some how)
    (table : TableId) (values : List Value) :
    (t.insertRow table values).run db = .error (.notActive t.label how) db := by
  simp only [insertRow, EStateM.run_bind, start_run_ended h]

/-- A row is appended if it fits the table, and otherwise only the transaction starts. -/
theorem insertRow_run (h : db.Active t) (table : TableId) (values : List Value) :
    (t.insertRow table values).run db =
      match (db.catalog.table table).schema.recordFault? values with
      | some e => .error (.storage (.schema e)) (db.begun t)
      | none =>
        let rid := (db.catalog.table table).nextRid
        .ok rid (((db.begun t).appended table ⟨rid, values, (db.start t).1, none⟩).counted t) := by
  simp only [insertRow, EStateM.run_bind, start_run h, EStateM.run_get, Database.begun_catalog]
  cases (db.catalog.table table).schema.recordFault? values with
  | some e => rfl
  | none => rfl

theorem deleteRow_run_ended {how : Ending} (h : (db.transaction t).ending = some how)
    (table : TableId) (rid : RowId) :
    (t.deleteRow table rid).run db = .error (.notActive t.label how) db := by
  simp only [deleteRow, EStateM.run_bind, start_run_ended h]

theorem deleteRow_run (h : db.Active t) (table : TableId) (rid : RowId) :
    (t.deleteRow table rid).run db =
      match db.version? table rid with
      | none =>
        .error (.storage (.rowNotFound (db.catalog.tableName table) rid)) (db.begun t)
      | some v =>
        match (db.begun t).registry.deleteVerdict (db.start t).1 v with
        | .refuse => .error (.conflict (db.catalog.tableName table) rid) (db.begun t)
        | .done => .ok () ((db.begun t).counted t)
        | .stamp => .ok () (((db.begun t).stamped table rid (db.start t).1).counted t) := by
  simp only [deleteRow, EStateM.run_bind, start_run h, EStateM.run_get, Database.begun_catalog,
    Table.get, Database.version?]
  cases (db.catalog.table table).version? rid.slot with
  | none => rfl
  | some v =>
    simp only
    cases (db.begun t).registry.deleteVerdict (db.start t).1 v with
    | refuse => rfl
    | done => rfl
    | stamp =>
      simp only [EStateM.run_bind, EStateM.run_set, countWrite_run, Database.stamped,
        Database.begun_catalog]

theorem updateRow_run (table : TableId) (rid : RowId) (values : List Value) :
    (t.updateRow table rid values).run db =
      match (db.catalog.table table).schema.recordFault? values with
      | some e => .error (.storage (.schema e)) db
      | none =>
        match (t.deleteRow table rid).run db with
        | .error e db => .error e db
        | .ok () db => (t.insertRow table values).run db := by
  simp only [updateRow, EStateM.run_bind, EStateM.run_get]
  cases (db.catalog.table table).schema.recordFault? values with
  | some e => rfl
  | none =>
    simp only [EStateM.run_bind]
    cases (t.deleteRow table rid).run db <;> rfl

theorem updateRow_run_ended {how : Ending} (h : (db.transaction t).ending = some how)
    (table : TableId) (rid : RowId) (values : List Value) :
    ∃ e, (t.updateRow table rid values).run db = .error e db := by
  rw [updateRow_run, deleteRow_run_ended h]
  cases (db.catalog.table table).schema.recordFault? values with
  | some e => exact ⟨_, rfl⟩
  | none => exact ⟨_, rfl⟩

theorem finish_run (h : (db.transaction t).ending = none) (how : Ending) :
    (t.finish how).run db = .ok () (db.ended t how) := by
  simp only [finish, EStateM.run_bind, EStateM.run_get, h, adjust, EStateM.run_modify,
    Database.ended, Database.number?]
  cases hs : (db.transaction t).started with
  | none => rfl
  | some r => rfl

theorem finish_run_ended {earlier : Ending} (h : (db.transaction t).ending = some earlier)
    (how : Ending) : (t.finish how).run db = .error (.notActive t.label earlier) db := by
  simp only [finish, EStateM.run_bind, EStateM.run_get, h]
  rfl

end TxHandle

end SnapshotSql
