import SnapshotSql.Proofs.Transaction.Progress
/-! # Operations of transactions -/

namespace SnapshotSql

inductive TxOp where
  | createTable (name : String) (columns : List Column)
  | keepTable (schema : TableSchema)
  | renameTable (old new : String)
  | begin (isolation : Isolation)
  | start (t : TxHandle)
  | readSnapshot (t : TxHandle)
  | insertRow (t : TxHandle) (table : TableId) (values : List Value)
  | deleteRow (t : TxHandle) (table : TableId) (rid : RowId)
  | updateRow (t : TxHandle) (table : TableId) (rid : RowId) (values : List Value)
  | commit (t : TxHandle)
  | rollback (t : TxHandle)

namespace Database

def attempt {ε α : Type} (a : Action ε α) (db : Database) : Bool × Database :=
  match a.run db with
  | .ok _ db => (true, db)
  | .error _ db => (false, db)

def relayout (c : Option Catalog) (db : Database) : Bool × Database :=
  match c with
  | some c => (true, { db with catalog := c })
  | none => (false, db)

end Database

namespace TxOp

/-- The transaction that an operation belongs to. -/
def actor? : TxOp → Option TxHandle
  | start t | readSnapshot t | insertRow t .. | deleteRow t .. | updateRow t .. | commit t
  | rollback t => some t
  | _ => none

def ending? : TxOp → Option (TxHandle × Ending)
  | commit t => some (t, .committed)
  | rollback t => some (t, .aborted)
  | _ => none

def arranges : TxOp → Bool
  | createTable .. | keepTable _ | renameTable .. => true
  | _ => false

/-- What an operation does, given that its handle is known. -/
def effect : TxOp → Database → Bool × Database
  | createTable name columns, db => db.relayout ((db.catalog.create name columns).toOption.map (·.2))
  | keepTable schema, db => db.relayout (some (db.catalog.adopt schema).2)
  | renameTable old new, db => db.relayout (db.catalog.rename old new).toOption
  | begin isolation, db => (true, (db.begin isolation).2)
  | start t, db => db.attempt t.start
  | readSnapshot t, db => db.attempt t.readSnapshot
  | insertRow t table values, db => db.attempt (t.insertRow table values)
  | deleteRow t table rid, db => db.attempt (t.deleteRow table rid)
  | updateRow t table rid values, db => db.attempt (t.updateRow table rid values)
  | commit t, db => db.attempt t.commit
  | rollback t, db => db.attempt t.rollback

/-- Whether an operation succeeds, and the database that it leaves. Nothing can be done through a
handle that was not given out. -/
def perform (op : TxOp) (db : Database) : Bool × Database :=
  match op.actor? with
  | none => op.effect db
  | some t => if db.Knows t then op.effect db else (false, db)

variable {op : TxOp} {db : Database} {t u : TxHandle}

theorem actor?_of_ending? {e : TxHandle × Ending} (h : op.ending? = some e) :
    op.actor? = some e.1 := by
  cases op <;> cases h <;> rfl

theorem actor?_of_arranges (h : op.arranges = true) : op.actor? = none := by
  cases op <;> first | rfl | cases h

theorem ending?_of_arranges (h : op.arranges = true) : op.ending? = none := by
  cases op <;> first | rfl | cases h

private theorem changes_relayout {c : Option Catalog}
    (h : ∀ c', c = some c' → ∀ id, (c'.table id).versions = (db.catalog.table id).versions) :
    Changes db (db.relayout c).2 := by
  cases c with
  | none => exact .refl
  | some c' => exact .single (.layout db c' (h c' rfl))

private theorem versions_adopt (c : Catalog) (schema : TableSchema) (id : TableId) :
    ((c.adopt schema).2.table id).versions = (c.table id).versions := by
  by_cases h : id.index = c.tables.size
  · obtain rfl : id = ⟨c.tables.size⟩ := congrArg TableId.mk h
    rw [Catalog.table_adopt_self, Catalog.table_of_size_le (Nat.le_of_eq h.symm)]
    rfl
  · rw [Catalog.table_adopt_of_ne schema h]

private theorem versions_create {c c' : Catalog} {name : String} {columns : List Column}
    {id : TableId} (h : c.create name columns = .ok (id, c')) (other : TableId) :
    (c'.table other).versions = (c.table other).versions := by
  obtain ⟨-, schema, -, -, rfl⟩ := Catalog.create_eq_ok h
  exact versions_adopt c schema other

private theorem versions_rename {c c' : Catalog} {old new : String} (h : c.rename old new = .ok c')
    (other : TableId) : (c'.table other).versions = (c.table other).versions := by
  obtain ⟨-, id, -, rfl⟩ := Catalog.rename_eq_ok h
  change ((c.modify id _).table other).versions = _
  by_cases ho : other = id
  · by_cases hk : id.index < c.tables.size
    · rw [ho, Catalog.table_modify_self hk]
    · have hk := Nat.le_of_not_lt hk
      rw [ho, Catalog.table_of_size_le hk, Catalog.table_of_size_le (by simpa using hk)]
  · rw [Catalog.table_modify_of_ne ho]

/-! ## What an operation does to a database -/

theorem writes_insertRow (h : db.Active t) (table : TableId) (values : List Value) :
    Writes (db.start t).1 (db.begun t) (db.attempt (t.insertRow table values)).2 := by
  rw [Database.attempt, TxHandle.insertRow_run h]
  cases (db.catalog.table table).schema.recordFault? values with
  | some e => exact .refl
  | none =>
    have happend : Write (db.start t).1 (db.begun t) _ := .append (db.begun t) table values
    rw [Database.begun_catalog] at happend
    exact (Relation.ReflTransGen.single happend).tail (.count _ t)

theorem writes_deleteRow (h : db.Active t) (table : TableId) (rid : RowId) :
    Writes (db.start t).1 (db.begun t) (db.attempt (t.deleteRow table rid)).2 := by
  rw [Database.attempt, TxHandle.deleteRow_run h]
  cases hv : db.version? table rid with
  | none => exact .refl
  | some v =>
    simp only
    cases hd : (db.begun t).registry.deleteVerdict (db.start t).1 v with
    | refuse => exact .refl
    | done => exact .single (.count _ t)
    | stamp =>
      have hv' : (db.begun t).version? table rid = some v := by
        rwa [Database.version?_of_catalog_eq Database.begun_catalog]
      exact (Relation.ReflTransGen.single (.stamp hv' hd)).tail (.count _ t)

/-- What a step through a handle can do: nothing, or start the transaction and write. -/
def Effective (t : TxHandle) (db db' : Database) : Prop :=
  db' = db ∨ db.Active t ∧ Writes (db.start t).1 (db.begun t) db'

theorem changes_of_effective {db' : Database} (h : Effective t db db') : Changes db db' := by
  rcases h with rfl | ⟨ht, hw⟩
  · exact .refl
  · exact .head (.start ht) (Database.changes_of_writes (Database.active_begun ht)
      (Database.number?_begun ht.1) hw)

private theorem effective_start (h : db.Knows t) : Effective t db (db.attempt t.start).2 := by
  cases he : (db.transaction t).ending with
  | none =>
    rw [Database.attempt, TxHandle.start_run ⟨h, he⟩]
    exact .inr ⟨⟨h, he⟩, .refl⟩
  | some how =>
    rw [Database.attempt, TxHandle.start_run_ended he]
    exact .inl rfl

private theorem effective_readSnapshot (h : db.Knows t) :
    Effective t db (db.attempt t.readSnapshot).2 := by
  cases he : (db.transaction t).ending with
  | none =>
    rw [Database.attempt, TxHandle.readSnapshot_run ⟨h, he⟩]
    exact .inr ⟨⟨h, he⟩, .refl⟩
  | some how =>
    rw [Database.attempt, TxHandle.readSnapshot_run_ended he]
    exact .inl rfl

private theorem effective_insertRow (h : db.Knows t) (table : TableId) (values : List Value) :
    Effective t db (db.attempt (t.insertRow table values)).2 := by
  cases he : (db.transaction t).ending with
  | none => exact .inr ⟨⟨h, he⟩, writes_insertRow ⟨h, he⟩ table values⟩
  | some how =>
    rw [Database.attempt, TxHandle.insertRow_run_ended he]
    exact .inl rfl

private theorem effective_deleteRow (h : db.Knows t) (table : TableId) (rid : RowId) :
    Effective t db (db.attempt (t.deleteRow table rid)).2 := by
  cases he : (db.transaction t).ending with
  | none => exact .inr ⟨⟨h, he⟩, writes_deleteRow ⟨h, he⟩ table rid⟩
  | some how =>
    rw [Database.attempt, TxHandle.deleteRow_run_ended he]
    exact .inl rfl

private theorem effective_updateRow (h : db.Knows t) (table : TableId) (rid : RowId)
    (values : List Value) : Effective t db (db.attempt (t.updateRow table rid values)).2 := by
  have hdelete := effective_deleteRow h table rid
  rw [Database.attempt, TxHandle.updateRow_run]
  cases (db.catalog.table table).schema.recordFault? values with
  | some e => exact .inl rfl
  | none =>
    rw [Database.attempt] at hdelete
    cases hrun : (t.deleteRow table rid).run db with
    | error e db' =>
      rw [hrun] at hdelete
      exact hdelete
    | ok _ db' =>
      rw [hrun] at hdelete
      rcases hdelete with rfl | ⟨ht, hw⟩
      · exact effective_insertRow h table values
      · -- The transaction has started by now, so that the second start does nothing.
        have ht' : db'.Active t := (Database.active_writes hw).mpr (Database.active_begun ht)
        have hstarted : (db'.transaction t).started = some (db.start t) := by
          rw [Database.started_writes hw, Database.started_begun ht.1]
        have hinsert := writes_insertRow ht' table values
        rw [Database.begun_of_started hstarted, Database.start_of_started hstarted] at hinsert
        exact .inr ⟨ht, hw.trans hinsert⟩

private theorem effective_effect (h : op.ending? = none) (ha : op.actor? = some t)
    (hk : db.Knows t) : Effective t db (op.effect db).2 := by
  cases op <;> cases ha
  case start => exact effective_start hk
  case readSnapshot => exact effective_readSnapshot hk
  case insertRow table values => exact effective_insertRow hk table values
  case deleteRow table rid => exact effective_deleteRow hk table rid
  case updateRow table rid values => exact effective_updateRow hk table rid values
  case commit => cases h
  case rollback => cases h

private theorem versions_of_create (name : String) (columns : List Column) (c' : Catalog)
    (hc' : (db.catalog.create name columns).toOption.map (·.2) = some c') (id : TableId) :
    (c'.table id).versions = (db.catalog.table id).versions := by
  cases hcreate : db.catalog.create name columns with
  | error e => simp [hcreate, Except.toOption] at hc'
  | ok r =>
    have hr : r.2 = c' := by simpa [hcreate, Except.toOption] using hc'
    have hcreated : db.catalog.create name columns = .ok (r.1, c') := by rw [hcreate, ← hr]
    exact versions_create hcreated id

private theorem versions_of_rename (old new : String) (c' : Catalog)
    (hc' : (db.catalog.rename old new).toOption = some c') (id : TableId) :
    (c'.table id).versions = (db.catalog.table id).versions := by
  cases hrename : db.catalog.rename old new with
  | error e => simp [hrename, Except.toOption] at hc'
  | ok r =>
    have hr : r = c' := by simpa [hrename, Except.toOption] using hc'
    exact versions_rename (hr ▸ hrename) id

private theorem changes_effect (ha : op.actor? = none) (db : Database) :
    Changes db (op.effect db).2 := by
  cases op <;> cases ha
  case createTable name columns => exact changes_relayout (versions_of_create name columns)
  case keepTable schema =>
    refine changes_relayout ?_
    rintro c' ⟨⟩
    exact versions_adopt _ schema
  case renameTable old new => exact changes_relayout (versions_of_rename old new)
  case begin isolation => exact .single (.begin db isolation)

/-- An operation that ends no transaction is one of the catalog, a new handle, or a step of the
transaction that it belongs to. -/
private theorem perform_cases (h : op.ending? = none) (db : Database) :
    op.actor? = none ∧ op.perform db = op.effect db ∨
      ∃ t, op.actor? = some t ∧ Effective t db (op.perform db).2 := by
  unfold perform
  cases ha : op.actor? with
  | none => exact .inl ⟨rfl, rfl⟩
  | some t =>
    refine .inr ⟨t, rfl, ?_⟩
    simp only
    split
    · rename_i hk
      exact effective_effect h ha hk
    · exact .inl rfl

theorem changes_perform (h : op.ending? = none) (db : Database) : Changes db (op.perform db).2 := by
  rcases perform_cases h db with ⟨ha, hrun⟩ | ⟨t, _, ht⟩
  · rw [hrun]
    exact changes_effect ha db
  · exact changes_of_effective ht

private theorem started_effect (ha : op.actor? = none) (db : Database) (u : TxHandle) :
    ((op.effect db).2.transaction u).started = (db.transaction u).started := by
  have hrelayout : ∀ c, ((db.relayout c).2.transaction u).started = (db.transaction u).started := by
    intro c
    cases c <;> rfl
  cases op <;> cases ha
  case createTable name columns => exact hrelayout _
  case keepTable schema => exact hrelayout _
  case renameTable old new => exact hrelayout _
  case begin isolation => exact Database.started_begin isolation

/-- A transaction gets its number and snapshot from the database in which an operation of its own
starts. -/
theorem started_perform (h : op.ending? = none) (db : Database) (u : TxHandle) :
    ((op.perform db).2.transaction u).started = (db.transaction u).started ∨
      db.Active u ∧ ((op.perform db).2.transaction u).started = some (db.start u) := by
  rcases perform_cases h db with ⟨ha, hrun⟩ | ⟨t, _, hsame | ⟨ht, hw⟩⟩
  · exact .inl (by rw [hrun, started_effect ha])
  · exact .inl (by rw [hsame])
  · rw [Database.started_writes hw]
    by_cases hut : u = t
    · subst hut
      exact .inr ⟨ht, Database.started_begun ht.1⟩
    · exact .inl (by rw [Database.transaction_begun_of_ne hut])

theorem perform_of_success (ha : op.actor? = some t) (h : (op.perform db).1 = true) :
    db.Knows t ∧ op.perform db = op.effect db := by
  unfold perform at h ⊢
  rw [ha] at h ⊢
  simp only at h ⊢
  split
  · rename_i hk
    exact ⟨hk, rfl⟩
  · rename_i hk
    simp [hk] at h

private theorem attempt_finish (t : TxHandle) (how : Ending) (db : Database) :
    (db.transaction t).ending = none ∧ db.attempt (t.finish how) = (true, db.ended t how) ∨
      db.attempt (t.finish how) = (false, db) := by
  cases he : (db.transaction t).ending with
  | none => exact .inl ⟨rfl, by rw [Database.attempt, TxHandle.finish_run he]⟩
  | some earlier => exact .inr (by rw [Database.attempt, TxHandle.finish_run_ended he])

theorem perform_ending {how : Ending} (h : op.ending? = some (t, how)) (db : Database) :
    db.Active t ∧ op.perform db = (true, db.ended t how) ∨ op.perform db = (false, db) := by
  have hop : op.perform db = if db.Knows t then db.attempt (t.finish how) else (false, db) := by
    cases op <;> cases h <;> rfl
  rw [hop]
  split
  · rename_i hk
    rcases attempt_finish t how db with ⟨he, hrun⟩ | hrun
    · exact .inl ⟨⟨hk, he⟩, hrun⟩
    · exact .inr hrun
  · exact .inr rfl

inductive LeadsTo (op : TxOp) (db : Database) : Database → Prop
  | same : LeadsTo op db db
  | begin (isolation : Isolation) (h : op = .begin isolation) : LeadsTo op db (db.begin isolation).2
  | layout (c : Catalog) (h : op.arranges = true)
      (hc : ∀ id, (c.table id).versions = (db.catalog.table id).versions) :
      LeadsTo op db { db with catalog := c }
  | work {t : TxHandle} {db' : Database} (ha : op.actor? = some t) (ht : db.Active t)
      (hw : Writes (db.start t).1 (db.begun t) db') : LeadsTo op db db'
  | ended {t : TxHandle} {how : Ending} (he : op.ending? = some (t, how)) (ht : db.Active t) :
      LeadsTo op db (db.ended t how)

private theorem leadsTo_relayout {c : Option Catalog} (h : op.arranges = true)
    (hc : ∀ c', c = some c' → ∀ id, (c'.table id).versions = (db.catalog.table id).versions) :
    LeadsTo op db (db.relayout c).2 := by
  cases c with
  | none => exact .same
  | some c' => exact .layout c' h (hc c' rfl)

private theorem leadsTo_effect (ha : op.actor? = none) (db : Database) :
    LeadsTo op db (op.effect db).2 := by
  cases op <;> cases ha
  case createTable name columns => exact leadsTo_relayout rfl (versions_of_create name columns)
  case keepTable schema =>
    refine leadsTo_relayout rfl ?_
    rintro c' ⟨⟩
    exact versions_adopt _ schema
  case renameTable old new => exact leadsTo_relayout rfl (versions_of_rename old new)
  case begin isolation => exact .begin isolation rfl

theorem leadsTo_perform (op : TxOp) (db : Database) : LeadsTo op db (op.perform db).2 := by
  cases he : op.ending? with
  | some e =>
    rcases perform_ending he db with ⟨ht, hrun⟩ | hrun
    · rw [hrun]
      exact .ended he ht
    · rw [hrun]
      exact .same
  | none =>
    rcases perform_cases he db with ⟨ha, hrun⟩ | ⟨t, ha, hsame | ⟨ht, hw⟩⟩
    · rw [hrun]
      exact leadsTo_effect ha db
    · rw [hsame]
      exact .same
    · exact .work ha ht hw

/-- An operation changes nothing about the transactions of others but the count of their writes. -/
theorem transaction_perform_of_ne (ha : op.actor? ≠ some u) (hu : db.Knows u) :
    ∃ n, (op.perform db).2.transaction u = { db.transaction u with writes := n } := by
  have hled := leadsTo_perform op db
  generalize (op.perform db).2 = db' at hled
  cases hled with
  | same => exact ⟨_, rfl⟩
  | begin isolation => exact ⟨_, Database.transaction_begin hu isolation⟩
  | layout => exact ⟨_, rfl⟩
  | @work t _ hactor _ hw =>
    have hne : u ≠ t := fun h => ha (h ▸ hactor)
    obtain ⟨n, hn⟩ := Database.transaction_writes hw u
    exact ⟨n, by rw [hn, Database.transaction_begun_of_ne hne]⟩
  | @ended t how he =>
    have hne : u ≠ t := fun h => ha (h ▸ actor?_of_ending? he)
    exact ⟨_, Database.transaction_ended_of_ne hne⟩

theorem schema_perform (h : op.arranges = false) (db : Database) (id : TableId) :
    ((op.perform db).2.catalog.table id).schema = (db.catalog.table id).schema := by
  have hled := leadsTo_perform op db
  generalize (op.perform db).2 = db' at hled
  cases hled with
  | same => rfl
  | begin isolation => rfl
  | layout _ harranges =>
    rw [h] at harranges
    cases harranges
  | work _ _ hw => rw [Database.schema_writes hw, Database.begun_catalog]
  | ended => rw [Database.ended_catalog]

theorem knows_perform_cases (h : (op.perform db).2.Knows u) :
    db.Knows u ∨ ∃ isolation, op = .begin isolation ∧
      (op.perform db).2 = (db.begin isolation).2 ∧ u = (db.begin isolation).1 := by
  have hled := leadsTo_perform op db
  generalize (op.perform db).2 = db' at h hled
  cases hled with
  | same => exact .inl h
  | begin isolation hop =>
    have hsize : u.index < db.transactions.size + 1 := by
      simpa [Database.Knows, Database.begin] using h
    by_cases hu : db.Knows u
    · exact .inl hu
    · refine .inr ⟨isolation, hop, rfl, ?_⟩
      have heq : u.index = db.transactions.size :=
        Nat.le_antisymm (Nat.le_of_lt_succ hsize) (Nat.le_of_not_lt hu)
      cases u
      exact congrArg TxHandle.mk heq
  | layout => exact .inl h
  | work _ _ hw => exact .inl (Database.knows_begun.mp ((Database.knows_writes hw).mp h))
  | ended _ _ => exact .inl (Database.knows_ended.mp h)

theorem number?_perform_of_ne (ha : op.actor? ≠ some u) (db : Database) :
    (op.perform db).2.number? u = db.number? u := by
  have hled := leadsTo_perform op db
  generalize (op.perform db).2 = db' at hled
  cases hled with
  | same => rfl
  | begin isolation => exact Database.number?_begin isolation
  | layout => rfl
  | @work t _ hactor _ hw =>
    have hne : u ≠ t := fun h => ha (h ▸ hactor)
    rw [Database.number?, Database.started_writes hw]
    exact Database.number?_begun_of_ne hne
  | ended _ ht => exact Database.number?_ended ht.1

end TxOp

namespace Database

/-- Every number that was given out belongs to a transaction. -/
def Assigned (db : Database) : Prop := ∀ x, db.registry.Registered x → ∃ t, db.number? t = some x

variable {db : Database} {t : TxHandle}

theorem sound_perform (hs : db.Sound) (op : TxOp) : (op.perform db).2.Sound := by
  cases he : op.ending? with
  | none => exact sound_changes hs (TxOp.changes_perform he db)
  | some e =>
    rcases TxOp.perform_ending he db with ⟨ht, hrun⟩ | hrun
    · rw [hrun]
      exact sound_ended hs ht e.2
    · rwa [hrun]

theorem evolves_perform (hs : db.Sound) (op : TxOp) : db.Evolves (op.perform db).2 := by
  cases he : op.ending? with
  | none => exact evolves_changes (TxOp.changes_perform he db)
  | some e =>
    rcases TxOp.perform_ending he db with ⟨ht, hrun⟩ | hrun
    · rw [hrun]
      exact evolves_ended hs ht e.2
    · rw [hrun]

private theorem assigned_begun (h : db.Assigned) (ht : db.Active t) : (db.begun t).Assigned := by
  intro x hx
  cases hnumber : db.number? t with
  | some y =>
    rw [begun_of_number? hnumber] at hx ⊢
    exact h x hx
  | none =>
    rw [registry_begun_of_none hnumber] at hx
    rcases Registry.registered_of_register hx with hx | rfl
    · obtain ⟨u, hu⟩ := h x hx
      have hne : u ≠ t := by
        rintro rfl
        rw [hnumber] at hu
        cases hu
      exact ⟨u, by rw [number?_begun_of_ne hne, hu]⟩
    · exact ⟨t, by rw [number?_begun ht.1, start_of_none hnumber]⟩

theorem assigned_perform (op : TxOp) (h : db.Assigned) : (op.perform db).2.Assigned := by
  have hled := TxOp.leadsTo_perform op db
  generalize (op.perform db).2 = db' at hled
  cases hled with
  | same => exact h
  | begin isolation =>
    intro x hx
    obtain ⟨t, ht⟩ := h x hx
    exact ⟨t, by rw [number?_begin, ht]⟩
  | layout => exact h
  | work _ ht hw =>
    intro x hx
    rw [registry_writes hw] at hx
    obtain ⟨u, hu⟩ := assigned_begun h ht x hx
    exact ⟨u, by rw [number?, started_writes hw, ← number?, hu]⟩
  | @ended t how he ht =>
    intro x hx
    have hx : db.registry.Registered x := by
      cases hnumber : db.number? t with
      | none => rwa [registry_ended_of_none hnumber] at hx
      | some y =>
        rw [registry_ended hnumber] at hx
        exact Registry.registered_finish.mp hx
    obtain ⟨u, hu⟩ := h x hx
    exact ⟨u, by rw [number?_ended ht.1, hu]⟩

end Database

end SnapshotSql
