import SnapshotSql.Proofs.Row.Typed
import SnapshotSql.Proofs.Session.Failures
import SnapshotSql.Proofs.Session.Found
/-! # Assigned values -/

namespace SnapshotSql

def ExecError.schemaError? : ExecError → Option SchemaError
  | storage (.schema cause) => some cause
  | transaction (.storage (.schema cause)) => some cause
  | _ => none

/-- The error about a schema or a record that an answer passes on. -/
def QueryResult.refusal? : Except ExecError QueryResult → Option SchemaError
  | .error e => e.schemaError?
  | .ok _ => none

/-- The columns that answer references and calls of an expression have the types that these carry. -/
structure TableSchema.Declares (s : TableSchema) (e : Expr) : Prop where
  field : ∀ ref ∈ e.plainFields, ∀ column ∈ s.columns, column.name = ref.field →
    ref.type = column.type
  call : ∀ call ∈ e.calls, ∀ column ∈ s.columns, column.name = call.render →
    call.dataType = column.type

/-! ## Records and their columns -/

theorem DataType.admits_assignable {column type : DataType} {v : Value}
    (h : Plan.assignable column type = true) (hv : type.admits v = true) : column.admits v = true := by
  simp only [Plan.assignable, Bool.or_eq_true, Bool.and_eq_true, decide_eq_true_eq] at h
  rcases h with (rfl | rfl) | ⟨rfl, rfl⟩
  · rw [undefined_admits.mp hv]
    exact admits_null column
  · exact hv
  · rcases integer_admits.mp hv with rfl | ⟨n, rfl⟩
    · rfl
    · rfl

namespace Column

variable {column : Column} {v : Value}

theorem admits_of_accepts (h : column.fault? v = none) : column.type.admits v = true := by
  unfold fault? at h
  split at h
  · rename_i hnull
    cases v with
    | null => exact DataType.admits_null _
    | _ => cases hnull
  · split at h
    · assumption
    · cases h

theorem fault?_of_admits {fault : ColumnFault} (hv : column.type.admits v = true)
    (h : column.fault? v = some fault) :
    v = .null ∧ column.nullable = false ∧ fault = .isNull column.name := by
  unfold fault? at h
  split at h
  · rename_i hnull
    split at h
    · cases h
    · rename_i hnullable
      cases h
      cases v with
      | null => exact ⟨rfl, Bool.eq_false_iff.mpr hnullable, rfl⟩
      | _ => cases hnull
  · cases h

end Column

namespace TableSchema

variable {s : TableSchema} {values : List Value} {i : Nat} {column : Column} {v : Value}

theorem fault?_of_fits (h : s.recordFault? values = none) (hcolumn : s.columns[i]? = some column)
    (hv : values[i]? = some v) : column.fault? v = none := by
  rw [recordFault?, if_neg (not_not.mpr (length_of_fits h))] at h
  have hmem : (column, v) ∈ s.columns.zip values :=
    List.mem_of_getElem? (List.getElem?_zip_eq_some.mpr ⟨hcolumn, hv⟩)
  exact Option.map_eq_none_iff.mp (List.findSome?_eq_none_iff.mp h _ hmem)

theorem exists_of_recordFault? {cause : SchemaError} (hwidth : values.length = s.width)
    (h : s.recordFault? values = some cause) :
    ∃ (i : Nat) (column : Column) (v : Value) (fault : ColumnFault), s.columns[i]? = some column ∧
      values[i]? = some v ∧ column.fault? v = some fault ∧ cause = .invalidRecord fault := by
  rw [recordFault?, if_neg (not_not.mpr hwidth)] at h
  obtain ⟨⟨column, v⟩, hmem, h⟩ := List.exists_of_findSome?_eq_some h
  obtain ⟨fault, hfault, rfl⟩ := Option.map_eq_some_iff.mp h
  obtain ⟨i, hi⟩ := List.mem_iff_getElem?.mp hmem
  obtain ⟨hcolumn, hv⟩ := List.getElem?_zip_eq_some.mp hi
  exact ⟨i, column, v, fault, hcolumn, hv, hfault, rfl⟩

end TableSchema

/-! ## New values -/

namespace RowView

theorem exists_of_firstAnswer {nameAt : Nat → Except ExecError CellName}
    {cellAt : Nat → Except ExecError Value} {wanted : CellName} {is : List Nat} {v : Value}
    (h : firstAnswer nameAt cellAt wanted is = .ok (some v)) :
    ∃ i name, nameAt i = .ok name ∧ name.answers wanted = true ∧ cellAt i = .ok v := by
  induction is with
  | nil => cases h
  | cons i is ih =>
    rw [firstAnswer] at h
    obtain ⟨name, hname, h⟩ := bind_eq_ok.mp h
    split at h
    · rename_i hanswers
      obtain ⟨w, hw, hv⟩ := map_eq_ok.mp h
      cases hv
      exact ⟨i, name, hname, hanswers, hw⟩
    · exact ih h

end RowView

namespace Operator

/-- A value of the new row is one of the old row or was assigned to its column. -/
theorem getElem?_assign {view : RowView} {targets : List (Nat × Expr)} {values values' : List Value}
    (h : assign view targets values = .ok values') :
    values'.length = values.length ∧ ∀ (i : Nat) (x : Value), values'[i]? = some x →
      values[i]? = some x ∨ ∃ target ∈ targets, target.1 = i ∧ view.eval target.2 = .ok x := by
  induction targets generalizing values with
  | nil =>
    cases h
    exact ⟨rfl, fun i x hx => .inl hx⟩
  | cons target rest ih =>
    rw [assign] at h
    obtain ⟨v, hv, h⟩ := bind_eq_ok.mp h
    split at h
    · obtain ⟨hlength, hvalues⟩ := ih h
      rw [List.length_set] at hlength
      refine ⟨hlength, fun i x hx => ?_⟩
      rcases hvalues i x hx with hold | ⟨other, hother, hassigned⟩
      · by_cases hi : target.1 = i
        · rw [← hi, List.getElem?_set_self ‹_›] at hold
          cases hold
          exact .inr ⟨target, List.mem_cons_self, hi, hv⟩
        · rw [List.getElem?_set_ne hi] at hold
          exact .inl hold
      · exact .inr ⟨other, List.mem_cons_of_mem target hother, hassigned⟩
    · cases h

end Operator

theorem Plan.assignable_checkAssignment {s : TableSchema} {a : Assignment} {target : Nat × Expr}
    (h : checkAssignment s a = .ok target) {column : Column}
    (hcolumn : s.columns[target.1]? = some column) :
    column.name = a.field ∧ assignable column.type a.value.dataType = true := by
  obtain ⟨hindex, -⟩ := checkAssignment_eq_ok h
  obtain ⟨column', hcolumn', hname⟩ := TableSchema.columnIndex?_name hindex
  obtain rfl := Option.some.inj (hcolumn.symm.trans hcolumn')
  refine ⟨hname, ?_⟩
  simp only [checkAssignment, hindex, hcolumn] at h
  split at h
  · assumption
  · cases h

namespace Catalog

variable {c : Catalog} {table : TableId} {v : Version} {x : Value}

theorem exists_of_find_fullRow {name : CellName} (h : (c.fullRow table v).find name = .ok (some x)) :
    ∃ (i : Nat) (column : Column), (c.table table).schema.columns[i]? = some column ∧
      v.values[i]? = some x ∧ column.name = name.field := by
  rw [fullRow, RowView.find] at h
  obtain ⟨k, cell, hcell, hanswers, hx⟩ := RowView.exists_of_firstAnswer h
  split at hx
  · rename_i y hy
    cases hx
    obtain ⟨i, hi, hvalue⟩ := Option.bind_eq_some_iff.mp hy
    obtain ⟨hk, rfl⟩ := List.getElem?_eq_some_iff.mp hi
    rw [List.getElem_range] at hvalue
    rw [List.length_range] at hk
    refine ⟨k, (c.table table).schema.columns[k], List.getElem?_eq_getElem hk, hvalue, ?_⟩
    rw [RowView.cellOf, List.getElem?_map, List.getElem?_eq_getElem hk] at hcell
    cases hcell
    simp only [CellName.answers, Bool.and_eq_true, beq_iff_eq] at hanswers
    exact hanswers.1
  · cases hx

/-- On a version that fits its table, an expression that the table declares comes to a value of its
type. -/
theorem admits_eval_fullRow {e : Expr} (hfits : (c.table table).schema.recordFault? v.values = none)
    (he : (c.table table).schema.Declares e) (h : (c.fullRow table v).eval e = .ok x) :
    e.dataType.admits x = true := by
  refine Expr.eval_admits ⟨?_, ?_⟩ h
  · intro ref href x hx
    obtain ⟨i, column, hcolumn, hvalue, hname⟩ := exists_of_find_fullRow hx
    rw [he.field ref href column (List.mem_of_getElem? hcolumn) hname]
    exact Column.admits_of_accepts (TableSchema.fault?_of_fits hfits hcolumn hvalue)
  · intro call hcall x hx
    obtain ⟨i, column, hcolumn, hvalue, hname⟩ := exists_of_find_fullRow hx
    rw [he.call call hcall column (List.mem_of_getElem? hcolumn) hname]
    exact Column.admits_of_accepts (TableSchema.fault?_of_fits hfits hcolumn hvalue)

end Catalog

/-! ## The failures of an UPDATE -/

private theorem ExecError.collecting_schemaless :
    ExecError.Collecting fun e => e.schemaError? = none where
  computing e he := by cases he <;> rfl
  conflict _ _ := rfl
  internal _ := rfl

/-- If the answer passes on a schema error, a version that is to be changed gets NULL for a column that does
not take it. -/
def Catalog.NullRefused (c : Catalog) (table : TableId) (sets : List Assignment) (filter : Option Expr)
    (R : Reader) (answer : Except ExecError QueryResult) : Prop :=
  ∀ cause, QueryResult.refusal? answer = some cause →
    ∃ v ∈ c.matching table R .write filter, ∃ a ∈ sets,
      ∃ column ∈ (c.table table).schema.columns, column.name = a.field ∧ column.nullable = false ∧
        (c.fullRow table v).eval a.value = .ok .null ∧ cause = .invalidRecord (.isNull column.name)

namespace Session

variable {s : Session} {c : Catalog} {table : TableId} {sets : List Assignment} {filter : Option Expr}
  {op : Operator} {t : TxHandle} {db : Database}

private theorem schemaless_collectChange {targets : List (Nat × Expr)} {policy : ConflictPolicy}
    {kind : OperatorKind} {e : ExecError} {R : Reader}
    (h : (QueryTree.targets c policy table filter).readAll R
      (Operator.collectChange table targets kind db) #[] = .error e) : e.schemaError? = none := by
  have hyields := QueryTree.yields_any (R := R) (q := .targets c policy table filter)
    ExecError.collecting_schemaless.computing (fun _ => rfl) (.inl rfl)
  refine QueryTree.raises_readAll hyields (fun changes v step hv => ?_) e h
  exact Operator.raises_collectChange ExecError.collecting_schemaless hv
    (fun target _ => target.2.within_all) changes step

private theorem nullRefused_assign {targets : List (Nat × Expr)} {v : Version} {values : List Value}
    {cause : SchemaError} {schema : TableSchema}
    (hcolumns : schema.columns = (c.table table).schema.columns)
    (hfits : (c.table table).schema.recordFault? v.values = none)
    (htargets : sets.mapM (Plan.checkAssignment (c.table table).schema) = .ok targets)
    (htypes : ∀ a ∈ sets, (c.table table).schema.Declares a.value)
    (hvalues : Operator.assign (c.fullRow table v) targets v.values = .ok values)
    (hcause : schema.recordFault? values = some cause) :
    ∃ a ∈ sets, ∃ column ∈ (c.table table).schema.columns, column.name = a.field ∧
      column.nullable = false ∧ (c.fullRow table v).eval a.value = .ok .null ∧
        cause = .invalidRecord (.isNull column.name) := by
  obtain ⟨hlength, hassigned⟩ := Operator.getElem?_assign hvalues
  have hwidth : values.length = schema.width := by
    rw [hlength, TableSchema.length_of_fits hfits, TableSchema.width, TableSchema.width, hcolumns]
  obtain ⟨i, column, x, fault, hcolumn, hx, hfault, rfl⟩ :=
    TableSchema.exists_of_recordFault? hwidth hcause
  rw [hcolumns] at hcolumn
  rcases hassigned i x hx with hold | ⟨target, htarget, rfl, heval⟩
  · have haccepts := TableSchema.fault?_of_fits hfits hcolumn hold
    cases haccepts.symm.trans hfault
  · obtain ⟨a, ha, hchecked⟩ := mem_of_mapM htargets htarget
    obtain ⟨hname, hassignable⟩ := Plan.assignable_checkAssignment hchecked hcolumn
    rw [(Plan.checkAssignment_eq_ok hchecked).2] at heval
    have hadmits := DataType.admits_assignable hassignable
      (Catalog.admits_eval_fullRow hfits (htypes a ha) heval)
    obtain ⟨rfl, hnullable, rfl⟩ := Column.fault?_of_admits hadmits hfault
    exact ⟨a, ha, column, List.mem_of_getElem? hcolumn, hname, hnullable, heval, rfl⟩

private theorem nullRefused_drive (hs : db.Sound) (hf : db.catalog.Formed)
    (hcolumns : (db.catalog.table table).schema.columns = (c.table table).schema.columns)
    (ht : db.Active t) (hop : s.plan c (.update table sets filter) = .ok op)
    (htypes : ∀ a ∈ sets, (c.table table).schema.Declares a.value) :
    c.NullRefused table sets filter (db.reader t) (drive (.update table sets filter) op t db).answer := by
  intro cause hcause
  obtain ⟨targets, htargets, rfl⟩ := eq_of_plan_update hop
  have hfits : ∀ v ∈ (db.reader t).versions table,
      (c.table table).schema.recordFault? v.values = none := by
    intro v hv
    obtain ⟨rid, hversion⟩ := Database.mem_versions.mp hv
    exact (TableSchema.recordFault?_congr hcolumns).mp (hf.fits hversion)
  rcases outcome_update c s.options.policy table filter hs
    (fun v hv => TableSchema.length_of_fits (hfits v hv)) ht sets targets with
    ⟨e', hread, houtcome⟩ | ⟨-, changes, hchanges, db', -, houtcome⟩
  · rw [Turn.answer_of_outcome houtcome] at hcause
    cases (schemaless_collectChange hread).symm.trans hcause
  · cases hfault : changes.findSome? fun change =>
        (db.catalog.table table).schema.recordFault? change.2 with
    | none =>
      rw [hfault] at houtcome
      rw [Turn.answer_of_outcome houtcome] at hcause
      cases hcause
    | some fault =>
      rw [hfault] at houtcome
      rw [Turn.answer_of_outcome houtcome] at hcause
      cases hcause
      obtain ⟨change, hchange, hrefused⟩ := List.exists_of_findSome?_eq_some hfault
      obtain ⟨v, hv, hreplaced⟩ := mem_of_mapM hchanges hchange
      obtain ⟨values, hvalues, rfl⟩ := map_eq_ok.mp hreplaced
      obtain ⟨targets', hsets, hscan⟩ := bind_eq_ok.mp htargets
      obtain ⟨_, _, hsame⟩ := bind_eq_ok.mp hscan
      cases hsame
      exact ⟨v, hv, nullRefused_assign hcolumns (hfits v (List.mem_filter.mp hv).1) hsets htypes hvalues
        hrefused⟩

/-- An UPDATE whose references have the types of their columns, and whose calls are not answered by columns
of other types, is planned at some time and run under an active transaction later. If it fails with an error
about a schema or a record, it is because a NULL was computed for a column that does not take it: the number of
values and their types always fit. -/
theorem update_nullRefused :
    (∀ (h : History) {j k : Nat} {t : TxHandle} {op : Operator}, j ≤ k → (h.stateAt k).Active t →
      table.index < (h.stateAt j).catalog.tables.size →
      s.plan (h.stateAt j).catalog (.update table sets filter) = .ok op →
      (∀ a ∈ sets, ((h.stateAt j).catalog.table table).schema.Declares a.value) →
      (h.stateAt j).catalog.NullRefused table sets filter ((h.stateAt k).reader t)
        (drive (.update table sets filter) op t (h.stateAt k)).answer) ∧
    ∀ (events : List Event) {op : Operator}, s ∈ (System.after events).sessions →
      let db := (System.after events).db
      s.plan db.catalog (.update table sets filter) = .ok op →
      (∀ a ∈ sets, (db.catalog.table table).schema.Declares a.value) →
      db.catalog.NullRefused table sets filter ((s.entered db).2.reader (s.entered db).1)
        (s.execute (.update table sets filter) db).result := by
  constructor
  · intro h j k t op hjk ht htable hop htypes
    exact nullRefused_drive (h.sound_stateAt k) (h.formed_stateAt k)
      ((h.extends_stateAt hjk).columns htable) ht hop htypes
  · intro events op hsession db hop htypes
    have hvalid := System.valid_after events
    have hactive := active_entered (hvalid.ready s hsession)
    have hcatalog := s.catalog_entered db
    have hsound := s.sound_entered (Database.sound_of_reachable hvalid.reachable)
    have hformed := Database.formed_of_reachable hvalid.reachable
    rw [← hcatalog] at hformed
    rw [execute_planned hop, result_run rfl (active_mayDo (works_drive hop hactive) hactive)]
    exact nullRefused_drive hsound hformed (by rw [hcatalog]) hactive hop htypes

/-- A table with an optional integer and a required float, two rows, and a transaction. -/
def optionalInteger : History :=
  [.createTable "t" [⟨"a", .integer, true⟩, ⟨"f", .float, false⟩], .begin .readCommitted,
    .insertRow ⟨0⟩ ⟨0⟩ [.integer 1, .integer 5], .insertRow ⟨0⟩ ⟨0⟩ [.null, .integer 6], .commit ⟨0⟩,
    .begin .readCommitted]

/-- `f = t.a`. -/
def widening : List Assignment := [⟨"f", .field ⟨"t", "a", .integer⟩⟩]

theorem update_nullRefused_widening :
    let db := optionalInteger.stateAt 6
    let op : Operator := .update ⟨0⟩ [(1, .field ⟨"t", "a", .integer⟩)]
      (QueryTree.targets db.catalog .absorbUnmatched ⟨0⟩ none).operator none
    db.Active ⟨1⟩ ∧
      Session.plan {} db.catalog (.update ⟨0⟩ widening none) = .ok op ∧
      (∀ a ∈ widening, (db.catalog.table ⟨0⟩).schema.Declares a.value) ∧
      QueryResult.refusal? (drive (.update ⟨0⟩ widening none) op ⟨1⟩ db).answer =
        some (.invalidRecord (.isNull "f")) ∧
      db.catalog.NullRefused ⟨0⟩ widening none (db.reader ⟨1⟩)
        (drive (.update ⟨0⟩ widening none) op ⟨1⟩ db).answer := by
  intro db op
  have hactive : db.Active ⟨1⟩ := ⟨by decide, rfl⟩
  have hop : Session.plan {} db.catalog (.update ⟨0⟩ widening none) = .ok op := rfl
  have hdeclares : ∀ a ∈ widening, (db.catalog.table ⟨0⟩).schema.Declares a.value := by
    intro a ha
    cases List.mem_singleton.mp ha
    constructor
    · intro ref href column hcolumn hname
      cases List.mem_singleton.mp href
      rcases List.mem_pair.mp hcolumn with rfl | rfl
      · rfl
      · exact absurd hname (by decide)
    · intro call hcall
      cases hcall
  exact ⟨hactive, hop, hdeclares, by decide +kernel,
    update_nullRefused.1 optionalInteger (Nat.le_refl 6) hactive (by decide) hop hdeclares⟩

/-- A table with a column that is named like a call, a row, and a session. -/
def columnLikeCall : List Event :=
  [.operate (.createTable "t" [⟨"COUNT(*)", .text, true⟩, ⟨"a", .integer, true⟩]),
    .operate (.begin .readCommitted), .operate (.insertRow ⟨0⟩ ⟨0⟩ [.text "x", .integer 1]),
    .operate (.commit ⟨0⟩), .connect {}]

/-- `a = COUNT(*)`. -/
def assignCount : List Assignment := [⟨"a", .aggregate .count none⟩]

/-- A call is planned as an integer and answered by a column of texts. -/
theorem update_columnLikeCall :
    let db := (System.after columnLikeCall).db
    ({} : Session) ∈ (System.after columnLikeCall).sessions ∧
      (∃ op, Session.plan {} db.catalog (.update ⟨0⟩ assignCount none) = .ok op) ∧
      (∀ a ∈ assignCount, a.value.fields = []) ∧
      QueryResult.refusal? (Session.execute {} (.update ⟨0⟩ assignCount none) db).result =
        some (.invalidRecord (.wrongType "a" .integer .text)) := by
  refine ⟨List.mem_singleton_self _, ⟨_, rfl⟩, ?_, by decide +kernel⟩
  intro a ha
  cases List.mem_singleton.mp ha
  rfl

end Session

end SnapshotSql
