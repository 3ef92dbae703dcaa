import SnapshotSql.Proofs.Transaction.History
/-! # Stored rows -/

namespace SnapshotSql

namespace Table

/-- The table has grown: no version is lost, and the ones that are new fit. -/
structure Extends (t t' : Table) : Prop where
  columns : t'.schema.columns = t.schema.columns
  kept : ∀ {slot v}, t.version? slot = some v → ∃ d, t'.version? slot = some { v with deleter := d }
  added : ∀ {slot v}, t'.version? slot = some v → t.version? slot = none →
    v.rid = ⟨slot⟩ ∧ t'.schema.recordFault? v.values = none

variable {t t' : Table}

theorem extends_of_versions_eq (hversions : t'.versions = t.versions)
    (hcolumns : t'.schema.columns = t.schema.columns) : t.Extends t' := by
  have hversion : ∀ slot, t'.version? slot = t.version? slot := by
    intro slot
    rw [version?, version?, hversions]
  refine ⟨hcolumns, ?_, ?_⟩
  · intro slot v hv
    exact ⟨v.deleter, by rw [hversion, hv]⟩
  · intro slot v hv hnone
    rw [hversion, hnone] at hv
    cases hv

theorem extends_append {values : List Value} (hfits : t.schema.recordFault? values = none)
    (me : TxId) : t.Extends (t.append ⟨t.nextRid, values, me, none⟩) := by
  refine ⟨rfl, ?_, ?_⟩
  · intro slot v hv
    have hlt : slot < t.versions.size := (Array.getElem?_eq_some_iff.mp hv).1
    refine ⟨v.deleter, ?_⟩
    simpa [version?, append, Array.getElem?_push, Nat.ne_of_lt hlt] using hv
  · intro slot v hv hnone
    simp only [version?, append, Array.getElem?_push] at hv hnone
    by_cases hslot : slot = t.versions.size
    · rw [if_pos hslot] at hv
      cases hv
      exact ⟨by rw [hslot]; rfl, hfits⟩
    · rw [if_neg hslot, hnone] at hv
      cases hv

theorem extends_stamp (t : Table) (rid : RowId) (d : Option TxId) : t.Extends (t.stamp rid d) := by
  refine ⟨rfl, ?_, ?_⟩
  · intro slot v hv
    by_cases hslot : rid.slot = slot
    · refine ⟨d, ?_⟩
      simp only [version?] at hv
      simp [version?, stamp, Array.getElem?_modify, hslot, hv]
    · refine ⟨v.deleter, ?_⟩
      simpa [version?, stamp, Array.getElem?_modify, hslot] using hv
  · intro slot v hv hnone
    simp only [version?] at hnone
    simp [version?, stamp, Array.getElem?_modify, hnone] at hv

end Table

theorem TableSchema.recordFault?_congr {s s' : TableSchema} {values : List Value}
    (h : s'.columns = s.columns) : s'.recordFault? values = none ↔ s.recordFault? values = none := by
  by_cases hwidth : values.length = s.columns.length
  · simp [recordFault?, width, h, hwidth]
  · simp [recordFault?, width, h, hwidth]

theorem TableSchema.length_of_fits {s : TableSchema} {values : List Value}
    (h : s.recordFault? values = none) : values.length = s.width := by
  by_contra hne
  simp [recordFault?, hne] at h

namespace Catalog

/-- Tables have been added and have grown. -/
structure Extends (c c' : Catalog) : Prop where
  size : c.tables.size ≤ c'.tables.size
  columns : ∀ {id}, id.index < c.tables.size →
    (c'.table id).schema.columns = (c.table id).schema.columns
  kept : ∀ {id slot v}, (c.table id).version? slot = some v →
    ∃ d, (c'.table id).version? slot = some { v with deleter := d }
  added : ∀ {id slot v}, (c'.table id).version? slot = some v → (c.table id).version? slot = none →
    v.rid = ⟨slot⟩ ∧ (c'.table id).schema.recordFault? v.values = none

variable {c c' c'' : Catalog} {id : TableId} {slot : Nat} {v : Version}

@[refl, simp] theorem extends_refl (c : Catalog) : c.Extends c where
  size := Nat.le_refl _
  columns _ := rfl
  kept {_ _ v} hv := ⟨v.deleter, hv⟩
  added hv hnone := by
    rw [hnone] at hv
    cases hv

theorem extends_trans (h : c.Extends c') (h' : c'.Extends c'') : c.Extends c'' where
  size := Nat.le_trans h.size h'.size
  columns hid := (h'.columns (Nat.lt_of_lt_of_le hid h.size)).trans (h.columns hid)
  kept hv := by
    obtain ⟨d, hd⟩ := h.kept hv
    obtain ⟨d', hd'⟩ := h'.kept hd
    exact ⟨d', hd'⟩
  added {id slot v} hv hnone := by
    cases hmid : (c'.table id).version? slot with
    | none => exact h'.added hv hmid
    | some w =>
      obtain ⟨d, hd⟩ := h'.kept hmid
      obtain rfl := Option.some.inj (hv.symm.trans hd)
      obtain ⟨hrid, hfits⟩ := h.added hmid hnone
      have hcolumns := h'.columns (lt_size_of_version? hmid)
      exact ⟨hrid, (TableSchema.recordFault?_congr hcolumns).mpr hfits⟩

theorem extends_modify {id : TableId} {f : Table → Table} (h : (c.table id).Extends (f (c.table id))) :
    c.Extends (c.modify id f) := by
  have htable : ∀ other, (c.table other).Extends ((c.modify id f).table other) := by
    intro other
    by_cases ho : other = id
    · subst ho
      by_cases hk : other.index < c.tables.size
      · rwa [table_modify_self hk]
      · have hk := Nat.le_of_not_lt hk
        rw [table_of_size_le hk, table_of_size_le (by simpa using hk)]
        exact Table.extends_of_versions_eq rfl rfl
    · rw [table_modify_of_ne ho]
      exact Table.extends_of_versions_eq rfl rfl
  exact ⟨Nat.le_of_eq size_modify.symm, fun _ => (htable _).columns, (htable _).kept,
    (htable _).added⟩

theorem extends_adopt (c : Catalog) (schema : TableSchema) : c.Extends (c.adopt schema).2 := by
  have hversion : ∀ {id : TableId} {slot : Nat}, ((c.adopt schema).2.table id).version? slot =
      (c.table id).version? slot := by
    intro id slot
    by_cases hid : id.index = c.tables.size
    · obtain rfl : id = ⟨c.tables.size⟩ := congrArg TableId.mk hid
      rw [table_adopt_self, table_of_size_le (Nat.le_of_eq hid.symm)]
      rfl
    · rw [table_adopt_of_ne schema hid]
  refine ⟨by simp, ?_, ?_, ?_⟩
  · intro id hid
    rw [table_adopt_of_ne schema (Nat.ne_of_lt hid)]
  · intro id slot v hv
    exact ⟨v.deleter, hversion.trans hv⟩
  · intro id slot v hv hnone
    rw [hversion, hnone] at hv
    cases hv

theorem extends_create {name : String} {columns : List Column} {id : TableId}
    (h : c.create name columns = .ok (id, c')) : c.Extends c' := by
  obtain ⟨-, schema, -, -, rfl⟩ := create_eq_ok h
  obtain ⟨hsize, hcolumns, hkept, hadded⟩ := c.extends_adopt schema
  exact ⟨hsize, hcolumns, hkept, hadded⟩

theorem extends_rename {old new : String} (h : c.rename old new = .ok c') : c.Extends c' := by
  obtain ⟨-, id, -, rfl⟩ := rename_eq_ok h
  have hrenamed : (c.table id).Extends
      { c.table id with schema := { (c.table id).schema with name := new } } :=
    Table.extends_of_versions_eq rfl rfl
  obtain ⟨hsize, hcolumns, hkept, hadded⟩ : c.Extends (c.modify id fun t =>
    { t with schema := { t.schema with name := new } }) := extends_modify hrenamed
  exact ⟨hsize, hcolumns, hkept, hadded⟩

/-! ## Rows in order -/

/-- The versions of all tables stand at their row ids and fit the columns of their tables. -/
structure Formed (c : Catalog) : Prop where
  rid : ∀ {id : TableId} {slot : Nat} {v : Version}, (c.table id).version? slot = some v →
    v.rid = ⟨slot⟩
  fits : ∀ {id : TableId} {slot : Nat} {v : Version}, (c.table id).version? slot = some v →
    (c.table id).schema.recordFault? v.values = none

theorem Formed.width (h : c.Formed) {id : TableId} {slot : Nat} {v : Version}
    (hv : (c.table id).version? slot = some v) :
    v.values.length = (c.table id).schema.width :=
  TableSchema.length_of_fits (h.fits hv)

theorem formed_of_extends_empty (h : Extends {} c) : c.Formed where
  rid hv := (h.added hv rfl).1
  fits hv := (h.added hv rfl).2

end Catalog

namespace TxOp

variable {db : Database} {t : TxHandle}

private theorem extends_insertRow (hk : db.Knows t) (table : TableId) (values : List Value) :
    db.catalog.Extends (db.attempt (t.insertRow table values)).2.catalog := by
  rw [Database.attempt]
  cases he : (db.transaction t).ending with
  | some how => rw [TxHandle.insertRow_run_ended he]
  | none =>
    rw [TxHandle.insertRow_run ⟨hk, he⟩]
    cases hfits : (db.catalog.table table).schema.recordFault? values with
    | some e => simp
    | none =>
      show db.catalog.Extends ((db.begun t).catalog.modify table _)
      rw [Database.begun_catalog]
      exact Catalog.extends_modify (Table.extends_append hfits _)

private theorem extends_deleteRow (hk : db.Knows t) (table : TableId) (rid : RowId) :
    db.catalog.Extends (db.attempt (t.deleteRow table rid)).2.catalog := by
  rw [Database.attempt]
  cases he : (db.transaction t).ending with
  | some how => rw [TxHandle.deleteRow_run_ended he]
  | none =>
    rw [TxHandle.deleteRow_run ⟨hk, he⟩]
    cases db.version? table rid with
    | none => simp
    | some v =>
      simp only
      cases (db.begun t).registry.deleteVerdict (db.start t).1 v with
      | refuse => simp
      | done => simp [Database.counted]
      | stamp =>
        show db.catalog.Extends ((db.begun t).catalog.modify table _)
        rw [Database.begun_catalog]
        exact Catalog.extends_modify (Table.extends_stamp _ rid _)

private theorem knows_attempt_deleteRow (hk : db.Knows t) (table : TableId) (rid : RowId) :
    (db.attempt (t.deleteRow table rid)).2.Knows t := by
  have hperform : perform (.deleteRow t table rid) db = db.attempt (t.deleteRow table rid) := by
    simp only [perform, actor?, hk, if_true, effect]
  rw [← hperform]
  exact (Database.evolves_changes (changes_perform rfl db)).knows hk

private theorem extends_updateRow (hk : db.Knows t) (table : TableId) (rid : RowId)
    (values : List Value) :
    db.catalog.Extends (db.attempt (t.updateRow table rid values)).2.catalog := by
  have hdelete := extends_deleteRow hk table rid
  have hknows := knows_attempt_deleteRow hk table rid
  rw [Database.attempt, TxHandle.updateRow_run]
  cases (db.catalog.table table).schema.recordFault? values with
  | some e => rfl
  | none =>
    rw [Database.attempt] at hdelete hknows
    cases hrun : (t.deleteRow table rid).run db with
    | error e db' =>
      rw [hrun] at hdelete
      exact hdelete
    | ok _ db' =>
      rw [hrun] at hdelete hknows
      exact Catalog.extends_trans hdelete (extends_insertRow hknows table values)

private theorem extends_relayout {c : Option Catalog}
    (h : ∀ c', c = some c' → db.catalog.Extends c') :
    db.catalog.Extends (db.relayout c).2.catalog := by
  cases c with
  | none => rfl
  | some c' => exact h c' rfl

private theorem extends_finish (t : TxHandle) (how : Ending) :
    db.catalog.Extends (db.attempt (t.finish how)).2.catalog := by
  rw [Database.attempt]
  cases he : (db.transaction t).ending with
  | none => simp [TxHandle.finish_run he]
  | some earlier => rw [TxHandle.finish_run_ended he]

private theorem extends_effect (op : TxOp) (hk : ∀ t, op.actor? = some t → db.Knows t) :
    db.catalog.Extends (op.effect db).2.catalog := by
  cases op with
  | createTable name columns =>
    apply extends_relayout
    intro c' hc'
    cases hcreate : db.catalog.create name columns with
    | error e => simp [hcreate, Except.toOption] at hc'
    | ok r =>
      obtain ⟨id, c⟩ := r
      obtain rfl : c = c' := by simpa [hcreate, Except.toOption] using hc'
      exact Catalog.extends_create hcreate
  | keepTable schema =>
    apply extends_relayout
    rintro c' ⟨⟩
    exact db.catalog.extends_adopt schema
  | renameTable old new =>
    apply extends_relayout
    intro c' hc'
    cases hrename : db.catalog.rename old new with
    | error e => simp [hrename, Except.toOption] at hc'
    | ok c =>
      obtain rfl : c = c' := by simpa [hrename, Except.toOption] using hc'
      exact Catalog.extends_rename hrename
  | begin isolation => rfl
  | start t =>
    rw [effect, Database.attempt]
    cases he : (db.transaction t).ending with
    | none => simp [TxHandle.start_run ⟨hk t rfl, he⟩]
    | some how => rw [TxHandle.start_run_ended he]
  | readSnapshot t =>
    rw [effect, Database.attempt]
    cases he : (db.transaction t).ending with
    | none => simp [TxHandle.readSnapshot_run ⟨hk t rfl, he⟩]
    | some how => rw [TxHandle.readSnapshot_run_ended he]
  | insertRow t table values => exact extends_insertRow (hk t rfl) table values
  | deleteRow t table rid => exact extends_deleteRow (hk t rfl) table rid
  | updateRow t table rid values => exact extends_updateRow (hk t rfl) table rid values
  | commit t => exact extends_finish t .committed
  | rollback t => exact extends_finish t .aborted

theorem extends_perform (op : TxOp) (db : Database) :
    db.catalog.Extends (op.perform db).2.catalog := by
  unfold perform
  cases ha : op.actor? with
  | none =>
    apply extends_effect op
    intro t ht
    rw [ha] at ht
    cases ht
  | some t =>
    simp only
    split
    · rename_i hknows
      apply extends_effect op
      intro u hu
      rw [ha] at hu
      cases hu
      exact hknows
    · rfl

end TxOp

namespace Database

/-- The row id stands for a version with these values and this creator. -/
def Denotes (db : Database) (table : TableId) (rid : RowId) (values : List Value) (creator : TxId) :
    Prop :=
  ∃ d, db.version? table rid = some ⟨rid, values, creator, d⟩

variable {db db' : Database} {t : TxHandle} {table : TableId} {rid : RowId} {values : List Value}
  {creator : TxId}

theorem Denotes.of_extends (h : db.Denotes table rid values creator)
    (hextends : db.catalog.Extends db'.catalog) : db'.Denotes table rid values creator := by
  obtain ⟨d, hd⟩ := h
  exact hextends.kept hd

/-- The row id that an insertion answers stands for the row that was inserted. -/
theorem denotes_insertRow (ht : db.Active t) (hsize : table.index < db.catalog.tables.size)
    (hrun : (t.insertRow table values).run db = .ok rid db') :
    db'.number? t = some (db.start t).1 ∧ db'.Denotes table rid values (db.start t).1 := by
  rw [TxHandle.insertRow_run ht] at hrun
  cases hfits : (db.catalog.table table).schema.recordFault? values with
  | some e => simp [hfits] at hrun
  | none =>
    simp only [hfits] at hrun
    cases hrun
    refine ⟨by rw [number?_counted]; exact number?_begun ht.1, none, ?_⟩
    show ((((db.begun t).catalog.modify table _).table table).version? _) = _
    rw [begun_catalog, Catalog.table_modify_self hsize]
    simp [Table.version?, Table.append, Table.nextRid]

theorem denotes_updateRow (ht : db.Active t) (hsize : table.index < db.catalog.tables.size)
    {old : RowId} (hrun : (t.updateRow table old values).run db = .ok rid db') :
    db'.number? t = some (db.start t).1 ∧ db'.Denotes table rid values (db.start t).1 := by
  have hwrites := TxOp.writes_deleteRow ht table old
  rw [TxHandle.updateRow_run] at hrun
  split at hrun
  · cases hrun
  · rw [attempt] at hwrites
    split at hrun
    · cases hrun
    · rename_i mid hdelete
      rw [hdelete] at hwrites
      have hstarted : (mid.transaction t).started = some (db.start t) := by
        rw [started_writes hwrites, started_begun ht.1]
      have hsize' : table.index < mid.catalog.tables.size := by
        rwa [size_writes hwrites, begun_catalog]
      have hinsert := denotes_insertRow ((active_writes hwrites).mpr (active_begun ht)) hsize' hrun
      rwa [start_of_started hstarted] at hinsert

end Database

namespace History

variable {hist : History} {j k : Nat}

theorem extends_stateAt (h : History) (hjk : j ≤ k) :
    (h.stateAt j).catalog.Extends (h.stateAt k).catalog := by
  induction hjk with
  | refl => rfl
  | @step k _ ih =>
    apply Catalog.extends_trans ih
    cases hop : h[k]? with
    | none => rw [stateAt_succ_of_none hop]
    | some op =>
      rw [stateAt_succ hop]
      exact op.extends_perform _

theorem formed_stateAt (h : History) (k : Nat) : (h.stateAt k).catalog.Formed :=
  Catalog.formed_of_extends_empty (h.extends_stateAt (Nat.zero_le k))

theorem formed_final (h : History) : h.final.catalog.Formed := by
  rw [← h.stateAt_length]
  exact h.formed_stateAt _

/-- Operation number `i` stored a row, and answered this row id. -/
def Answered (h : History) (i : Nat) (t : TxHandle) (table : TableId) (rid : RowId)
    (values : List Value) : Prop :=
  ∃ db, h.Did i (.insertRow t table values) ∧
        (t.insertRow table values).run (h.stateAt i) = .ok rid db ∨
      ∃ old, h.Did i (.updateRow t table old values) ∧
        (t.updateRow table old values).run (h.stateAt i) = .ok rid db

private theorem active_of_did {ε α : Type} {action : Action ε α} {i : Nat} {t : TxHandle} {op : TxOp}
    {a : α} {db : Database} (hdid : hist.Did i op) (ha : op.actor? = some t)
    (heffect : op.effect (hist.stateAt i) = (hist.stateAt i).attempt action)
    (hended : ∀ how, ((hist.stateAt i).transaction t).ending = some how →
      ∃ e, action.run (hist.stateAt i) = .error e (hist.stateAt i))
    (hrun : action.run (hist.stateAt i) = .ok a db) :
    (hist.stateAt i).Active t ∧ hist.stateAt (i + 1) = db := by
  obtain ⟨hop, hsuccess⟩ := hdid
  obtain ⟨hknows, hperform⟩ := TxOp.perform_of_success ha hsuccess
  refine ⟨⟨hknows, ?_⟩, ?_⟩
  · cases he : ((hist.stateAt i).transaction t).ending with
    | none => rfl
    | some how =>
      obtain ⟨e, herror⟩ := hended how he
      rw [herror] at hrun
      cases hrun
  · rw [stateAt_succ hop, hperform, heffect, Database.attempt, hrun]

theorem denotes_of_answered {i : Nat} {t : TxHandle} {table : TableId} {rid : RowId}
    {values : List Value} (h : Answered hist i t table rid values)
    (hsize : table.index < (hist.stateAt i).catalog.tables.size) :
    ∃ x, (hist.stateAt (i + 1)).number? t = some x ∧
      (hist.stateAt (i + 1)).Denotes table rid values x := by
  obtain ⟨db, ⟨hdid, hrun⟩ | ⟨old, hdid, hrun⟩⟩ := h
  · obtain ⟨ht, hstate⟩ := active_of_did hdid rfl rfl
      (fun how he => ⟨_, TxHandle.insertRow_run_ended he table values⟩) hrun
    rw [hstate]
    exact ⟨_, Database.denotes_insertRow ht hsize hrun⟩
  · obtain ⟨ht, hstate⟩ := active_of_did hdid rfl rfl
      (fun how he => TxHandle.updateRow_run_ended he table old values) hrun
    rw [hstate]
    exact ⟨_, Database.denotes_updateRow ht hsize hrun⟩

/-- Stored rows are in order at all times, and what a row id stands for, it stands for ever after: a row
id that is answered stands for the row that was stored, by its creator. -/
theorem heap_lasts (h : History) (hjk : j ≤ k) :
    (h.stateAt j).catalog.Formed ∧
    (∀ table rid v, (h.stateAt j).version? table rid = some v →
      (h.stateAt j).registry.Registered v.creator ∧
      (∀ d, v.deleter = some d → (h.stateAt j).registry.Registered d) ∧
      (h.stateAt k).Denotes table rid v.values v.creator) ∧
    ∀ i < k, ∀ t table rid values, h.Answered i t table rid values →
      table.index < (h.stateAt i).catalog.tables.size →
      ∃ x, (h.stateAt k).number? t = some x ∧ (h.stateAt k).Denotes table rid values x := by
  refine ⟨h.formed_stateAt j, ?_, ?_⟩
  · intro table rid v hv
    have hrid : v.rid = rid := (h.sound_stateAt j).rid hv
    have hdenotes : (h.stateAt j).Denotes table rid v.values v.creator := by
      refine ⟨v.deleter, ?_⟩
      rw [hv, ← hrid]
    exact ⟨(h.sound_stateAt j).creator hv, fun d hd => (h.sound_stateAt j).deleter hv hd,
      hdenotes.of_extends (h.extends_stateAt hjk)⟩
  · intro i hi t table rid values hanswered hsize
    obtain ⟨x, hx, hdenotes⟩ := denotes_of_answered hanswered hsize
    refine ⟨x, ?_, hdenotes.of_extends (h.extends_stateAt hi)⟩
    exact Database.number?_of_evolves (h.evolves_stateAt hi) hx

/-- A transaction replaces a row of its own and rolls back, and the table is renamed. -/
def replaceAndRename : History :=
  [.createTable "t" [⟨"n", .integer, true⟩], .begin .readCommitted, .insertRow ⟨0⟩ ⟨0⟩ [.integer 1],
    .updateRow ⟨0⟩ ⟨0⟩ ⟨0⟩ [.integer 2], .rollback ⟨0⟩, .renameTable "t" "u"]

theorem heap_lasts_replaceAndRename :
    replaceAndRename.Answered 3 ⟨0⟩ ⟨0⟩ ⟨1⟩ [.integer 2] ∧
      replaceAndRename.final.catalog.Formed ∧
      replaceAndRename.final.Denotes ⟨0⟩ ⟨0⟩ [.integer 1] ⟨1⟩ ∧
      ∃ x, replaceAndRename.final.number? ⟨0⟩ = some x ∧
        replaceAndRename.final.Denotes ⟨0⟩ ⟨1⟩ [.integer 2] x := by
  have hanswered : replaceAndRename.Answered 3 ⟨0⟩ ⟨0⟩ ⟨1⟩ [.integer 2] :=
    ⟨_, .inr ⟨⟨0⟩, ⟨rfl, rfl⟩, rfl⟩⟩
  obtain ⟨-, hversions, -⟩ := heap_lasts replaceAndRename (j := 3) (k := 6) (by decide)
  obtain ⟨hformed, -, hrows⟩ := heap_lasts replaceAndRename (j := 6) (k := 6) (by decide)
  have hrow := (hversions ⟨0⟩ ⟨0⟩ ⟨⟨0⟩, [.integer 1], ⟨1⟩, none⟩ rfl).2.2
  exact ⟨hanswered, hformed, hrow, hrows 3 (by decide) ⟨0⟩ ⟨0⟩ ⟨1⟩ _ hanswered (by decide)⟩

end History

end SnapshotSql
