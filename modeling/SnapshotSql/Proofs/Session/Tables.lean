import SnapshotSql.Proofs.Session.Stamps
import SnapshotSql.Proofs.Transaction.Settled
/-! # Plain tables -/

namespace SnapshotSql

namespace TableSchema

variable (s : TableSchema)

/-- The row of a table that has the given values. -/
def row (values : List Value) : Row where
  names := s.columns.map s.cellName
  values := values

/-- Whether a row meets the condition of a statement, if that can be decided. -/
def meets? (filter : Option Expr) (values : List Value) : Option Bool :=
  match filter with
  | none => some true
  | some condition => ((s.row values).holds condition).toOption

/-- The rows that meet a condition and those that do not, if that can be decided for all of them. -/
def parted? (filter : Option Expr) (rows : List (List Value)) :
    Option (List (List Value) × List (List Value)) :=
  if rows.all fun values => (s.meets? filter values).isSome then
    some (rows.filter (s.meets? filter · = some true), rows.filter (s.meets? filter · = some false))
  else none

def newCell? (values : List Value) (target : Nat × Expr) : Option (Nat × Value) :=
  ((s.row values).eval target.2).toOption.map (target.1, ·)

/-- The values that replace a row: new values for some columns, all of them computed from the row. -/
def replaced? (targets : List (Nat × Expr)) (values : List Value) : Option (List Value) :=
  (targets.mapM (s.newCell? values)).map
    (List.foldl (fun values (cell : Nat × Value) => values.set cell.1 cell.2) values)

def inserted? (records rows : List (List Value)) : Option (List (List Value) × Nat) :=
  if records.all s.fits then some (rows ++ records, records.length) else none

def deleted? (filter : Option Expr) (rows : List (List Value)) : Option (List (List Value) × Nat) :=
  (s.parted? filter rows).map fun (gone, kept) => (kept, gone.length)

/-- The rows after an UPDATE, and the number of new ones. They follow the others, in the order of the rows
that they replace. -/
def updated? (targets : List (Nat × Expr)) (filter : Option Expr) (rows : List (List Value)) :
    Option (List (List Value) × Nat) :=
  (s.parted? filter rows).bind fun (gone, kept) =>
    (gone.mapM (s.replaced? targets)).bind fun new =>
      if new.all s.fits then some (kept ++ new, new.length) else none

end TableSchema

abbrev Tables := TableId → List (List Value)

namespace Tables

def put (T : Tables) (table : TableId) (rows : List (List Value)) : Tables :=
  fun id => if id = table then rows else T id

/-- Change the rows of a table, counting some of them, if that does not fail. -/
def alter? (T : Tables) (table : TableId)
    (change : List (List Value) → Option (List (List Value) × Nat)) : Option (Tables × Nat) :=
  (change (T table)).map fun (rows, n) => (T.put table rows, n)

end Tables

namespace Statement

/-- What a statement makes of plain tables, and how many rows it inserts, removes or replaces. Nothing if
it fails. -/
def onTables? (c : Catalog) (T : Tables) : Statement → Option (Tables × Nat)
  | insert table records => T.alter? table ((c.table table).schema.inserted? records)
  | delete table filter =>
    (Plan.writeScan c table filter []).toOption.bind fun _ =>
      T.alter? table ((c.table table).schema.deleted? filter)
  | update table sets filter =>
    (Session.updateTargets c table sets filter).toOption.bind fun targets =>
      T.alter? table ((c.table table).schema.updated? targets filter)
  | _ => some (T, 0)

def after (c : Catalog) (T : Tables) (stmt : Statement) : Tables :=
  match stmt.onTables? c T with
  | some (T', _) => T'
  | none => T

/-- A query, or a change of the rows of a table that is there. -/
def plain (c : Catalog) : Statement → Bool
  | select _ | delete .. | update .. => true
  | insert table _ => table.index < c.tables.size
  | _ => false

end Statement

/-! ## Rows and versions -/

namespace Catalog

variable {c : Catalog} {table : TableId} {filter : Option Expr} {v : Version}
  {targets : List (Nat × Expr)}

theorem toOption_meets (h : v.values.length = (c.table table).schema.width) :
    (c.meets table filter v).toOption = (c.table table).schema.meets? filter v.values := by
  cases filter with
  | none => rfl
  | some condition =>
    rw [meets, RowView.holds_of_copy (copy_fullRow h)]
    rfl

private theorem toOption_assign (view : RowView) (values : List Value)
    (htargets : ∀ target ∈ targets, target.1 < values.length) :
    (Operator.assign view targets values).toOption =
      (targets.mapM fun target => (view.eval target.2).toOption.map (target.1, ·)).map
        (List.foldl (fun values (cell : Nat × Value) => values.set cell.1 cell.2) values) := by
  induction targets generalizing values with
  | nil => rfl
  | cons target rest ih =>
    obtain ⟨hlt, hrest⟩ := List.forall_mem_cons.mp htargets
    rw [Operator.assign, List.mapM_cons]
    cases view.eval target.2 with
    | error e => rfl
    | ok value =>
      have hstep := ih (values.set target.1 value) (by simpa using hrest)
      show (if target.1 < values.length then Operator.assign view rest (values.set target.1 value)
        else _ : Except ExecError _).toOption = _
      rw [if_pos hlt, hstep]
      cases rest.mapM fun target => (view.eval target.2).toOption.map (target.1, ·) <;> rfl

theorem toOption_replacement (h : v.values.length = (c.table table).schema.width)
    (htargets : ∀ target ∈ targets, target.1 < (c.table table).schema.width) :
    (c.replacement table targets v).toOption =
      ((c.table table).schema.replaced? targets v.values).map (v.rid, ·) := by
  have hcell : ∀ target : Nat × Expr, ((c.fullRow table v).eval target.2).toOption.map (target.1, ·) =
      (c.table table).schema.newCell? v.values target := by
    intro target
    rw [RowView.eval_of_copy (copy_fullRow h)]
    rfl
  have hassign := toOption_assign (c.fullRow table v) v.values (h ▸ htargets)
  simp only [hcell] at hassign
  rw [TableSchema.replaced?, ← hassign, replacement]
  cases Operator.assign (c.fullRow table v) targets v.values <;> rfl

variable {vs : List Version}

theorem parted_values (hwidth : ∀ v ∈ vs, v.values.length = (c.table table).schema.width)
    (h : ∀ v ∈ vs, ∃ met, c.meets table filter v = .ok met) :
    (c.table table).schema.parted? filter (vs.map (·.values)) =
      some ((vs.filter fun v => (c.meets table filter v).toOption = some true).map (·.values),
        (vs.filter fun v => (c.meets table filter v).toOption = some false).map (·.values)) := by
  have hall : (vs.map (·.values)).all
      (fun values => ((c.table table).schema.meets? filter values).isSome) = true := by
    rw [List.all_map, List.all_eq_true]
    intro v hv
    obtain ⟨met, hmet⟩ := h v hv
    rw [Function.comp_apply, ← toOption_meets (hwidth v hv), hmet]
    rfl
  have hside : ∀ met : Bool, (vs.map (·.values)).filter
      (fun values => (c.table table).schema.meets? filter values = some met) =
        (vs.filter fun v => (c.meets table filter v).toOption = some met).map (·.values) := by
    intro met
    rw [List.filter_map]
    congr 1
    refine List.filter_congr fun v hv => ?_
    rw [Function.comp_apply, toOption_meets (hwidth v hv)]
  rw [TableSchema.parted?, if_pos hall, hside, hside]

theorem parted_eq_none (hwidth : ∀ v ∈ vs, v.values.length = (c.table table).schema.width)
    (h : ¬∀ v ∈ vs, ∃ met, c.meets table filter v = .ok met) :
    (c.table table).schema.parted? filter (vs.map (·.values)) = none := by
  rw [TableSchema.parted?, if_neg]
  rw [List.all_map, List.all_eq_true]
  intro hall
  refine h fun v hv => ?_
  have hsome := hall v hv
  rw [Function.comp_apply, ← toOption_meets (hwidth v hv), Option.isSome_iff_exists] at hsome
  obtain ⟨met, hmet⟩ := hsome
  exact ⟨met, toOption_eq_some.mp hmet⟩

theorem mapM_replaced (hwidth : ∀ v ∈ vs, v.values.length = (c.table table).schema.width)
    (htargets : ∀ target ∈ targets, target.1 < (c.table table).schema.width) :
    (vs.map (·.values)).mapM ((c.table table).schema.replaced? targets) =
      (vs.mapM (c.replacement table targets)).toOption.map (List.map (·.2)) := by
  induction vs with
  | nil => rfl
  | cons v vs ih =>
    obtain ⟨hv, hvs⟩ := List.forall_mem_cons.mp hwidth
    have hhead := toOption_replacement hv htargets
    rw [List.map_cons, List.mapM_cons, List.mapM_cons, ih hvs]
    cases hnew : c.replacement table targets v with
    | error e =>
      rw [hnew] at hhead
      rw [Option.map_eq_none_iff.mp hhead.symm]
      rfl
    | ok change =>
      rw [hnew] at hhead
      obtain ⟨values, hvalues, rfl⟩ := Option.map_eq_some_iff.mp hhead.symm
      rw [hvalues]
      cases vs.mapM (c.replacement table targets) <;> rfl

end Catalog

/-! ## Transactions that are alone -/

namespace Database

theorem alone_begin {db : Database} (hs : db.Sound) (hsettled : db.Settled) (isolation : Isolation) :
    (db.begin isolation).2.Alone (db.begin isolation).1 where
  sound := sound_change hs (.begin db isolation)
  settled := hsettled
  active := active_begin isolation
  number := by rw [number?, transaction_begin_self, Option.map_none]

theorem liveRows_begin {db : Database} (isolation : Isolation) :
    (db.begin isolation).2.liveRows = db.liveRows := by
  funext id
  rw [liveRows, live_congr (catalog_begin isolation) (registry_begin isolation), ← liveRows]

namespace Alone

variable {db : Database} {t : TxHandle} {table : TableId} {filter : Option Expr}

theorem uncontested (h : db.Alone t) (access : Access) :
    ∀ v ∈ (db.reader t).versions table, (db.reader t).see access v ≠ .contested := by
  intro v hv
  rw [h.see (version?_rid h.sound hv)]
  split <;> exact nofun

theorem matching_eq (h : db.Alone t) : db.catalog.matching table (db.reader t) .write filter =
    (db.live table).filter fun v => (db.catalog.meets table filter v).toOption = some true := by
  rw [← h.filter_see .write table, Catalog.matching, List.filter_filter]
  refine List.filter_congr fun v _ => ?_
  rw [Bool.decide_and, Bool.and_comm]

theorem clear_iff (h : db.Alone t) : db.catalog.Clear table (db.reader t) filter ↔
    ∀ v ∈ db.live table, ∃ met, db.catalog.meets table filter v = .ok met := by
  rw [← h.filter_see .write table]
  constructor
  · intro hclear v hv
    obtain ⟨hmem, hsee⟩ := List.mem_filter.mp hv
    obtain ⟨met, hmet, _⟩ := hclear v hmem (by rw [of_decide_eq_true hsee]; exact nofun)
    exact ⟨met, hmet⟩
  · intro hlive v hv hsee
    have hvisible : (db.reader t).see .write v = .visible := by
      cases hseen : (db.reader t).see .write v with
      | invisible => exact absurd hseen hsee
      | visible => rfl
      | contested => exact absurd hseen (h.uncontested .write v hv)
    obtain ⟨met, hmet⟩ := hlive v (List.mem_filter.mpr ⟨hv, decide_eq_true hvisible⟩)
    exact ⟨met, hmet, fun _ => hvisible⟩

theorem filter_kept (h : db.Alone t) (hclear : db.catalog.Clear table (db.reader t) filter) :
    (db.live table).filter (fun v => v.rid ∉
      (db.catalog.matching table (db.reader t) .write filter).map (·.rid)) =
        (db.live table).filter fun v => (db.catalog.meets table filter v).toOption = some false := by
  refine List.filter_congr fun v hv => ?_
  obtain ⟨met, hmet⟩ := h.clear_iff.mp hclear v hv
  have hmem : v.rid ∈ (db.catalog.matching table (db.reader t) .write filter).map (·.rid) ↔
      met = true := by
    rw [h.matching_eq, List.mem_map]
    constructor
    · rintro ⟨w, hw, hrid⟩
      obtain ⟨hw, hmeets⟩ := List.mem_filter.mp hw
      have hsame : w = v := by
        have hversion := version?_rid (t := t) h.sound (List.mem_filter.mp hw).1
        rw [hrid, version?_rid (t := t) h.sound (List.mem_filter.mp hv).1] at hversion
        exact (Option.some.inj hversion).symm
      rw [hsame, hmet] at hmeets
      simpa [Except.toOption] using hmeets
    · rintro rfl
      exact ⟨v, List.mem_filter.mpr ⟨hv, by rw [hmet]; rfl⟩, rfl⟩
  rw [hmet, decide_eq_decide, hmem]
  cases met <;> simp [Except.toOption]

variable (hformed : db.catalog.Formed)
include hformed

theorem width_live (h : db.Alone t) :
    ∀ v ∈ db.live table, v.values.length = (db.catalog.table table).schema.width :=
  fun _ hv => hformed.width (version?_rid (t := t) h.sound (List.mem_filter.mp hv).1)

theorem parted (h : db.Alone t) (hclear : db.catalog.Clear table (db.reader t) filter) :
    (db.catalog.table table).schema.parted? filter (db.liveRows table) =
      some ((db.catalog.matching table (db.reader t) .write filter).map (·.values),
        ((db.live table).filter fun v => v.rid ∉
          (db.catalog.matching table (db.reader t) .write filter).map (·.rid)).map (·.values)) := by
  rw [h.filter_kept hclear, h.matching_eq]
  exact Catalog.parted_values (h.width_live hformed) (h.clear_iff.mp hclear)

theorem parted_unclear (h : db.Alone t) (hclear : ¬db.catalog.Clear table (db.reader t) filter) :
    (db.catalog.table table).schema.parted? filter (db.liveRows table) = none :=
  Catalog.parted_eq_none (h.width_live hformed) fun hmeets => hclear (h.clear_iff.mpr hmeets)

end Alone

end Database

end SnapshotSql
