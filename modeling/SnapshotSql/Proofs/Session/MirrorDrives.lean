import SnapshotSql.Proofs.Session.Changes
import SnapshotSql.Proofs.Session.MirrorReads
import SnapshotSql.Proofs.Session.Repeatable
import SnapshotSql.Proofs.Transaction.Undone
/-! # Driving statements with and without a transaction -/

namespace SnapshotSql

def ExecError.anyRow : ExecError → ExecError
  | transaction (.conflict table _) => transaction (.conflict table ⟨0⟩)
  | e => e

/-- The results are equal, whatever rows conflicts are about. -/
def SameResult {α : Type} (x y : Except ExecError α) : Prop :=
  x.mapError ExecError.anyRow = y.mapError ExecError.anyRow

namespace SameResult

variable {α β γ : Type} {k : α → β} {x y : Except ExecError α}

theorem of_eq (h : x = y) : SameResult x y := h ▸ rfl

theorem cases (h : SameResult (x.map k) (y.map k)) :
    (∃ e e', x = .error e ∧ y = .error e' ∧ e.anyRow = e'.anyRow) ∨
      ∃ a b, x = .ok a ∧ y = .ok b ∧ k a = k b := by
  cases x with
  | error e =>
    cases y with
    | error e' => exact .inl ⟨e, e', rfl, rfl, Except.error.inj h⟩
    | ok b => cases h
  | ok a =>
    cases y with
    | error e' => cases h
    | ok b => exact .inr ⟨a, b, rfl, rfl, Except.ok.inj h⟩

theorem map (h : SameResult (x.map k) (y.map k)) {f : α → γ} (hf : ∀ a b, k a = k b → f a = f b) :
    SameResult (x.map f) (y.map f) := by
  rcases h.cases with ⟨e, e', rfl, rfl, he⟩ | ⟨a, b, rfl, rfl, hab⟩
  · exact congrArg Except.error he
  · exact congrArg Except.ok (hf a b hab)

theorem bind {δ : Type} {x : Except ExecError β} {f : β → Except ExecError δ} {g : α → Except ExecError γ}
    {j : γ → δ} (h : SameResult x (y.map k)) (hf : ∀ a, SameResult (f (k a)) ((g a).map j)) :
    SameResult (x >>= f) ((y >>= g).map j) := by
  cases x with
  | error e =>
    cases y with
    | error e' => exact congrArg Except.error (Except.error.inj h)
    | ok b => cases h
  | ok a =>
    cases y with
    | error e' => cases h
    | ok b =>
      obtain rfl : a = k b := Except.ok.inj h
      exact hf b

end SameResult

/-! ## Taking in rows under any row ids -/

/-- Readers who are shown the same come to the same, and open scans alike, if what is taken in does not
depend on row ids but in ways that are disregarded. -/
theorem QueryTree.readAll_sameShown {σ : Type} {f : σ → RowView → Step → Except ExecError σ} {k : σ → σ}
    {R R' : Reader} {q : QueryTree} (acc : σ)
    (hf : ∀ acc v step, SameResult (f (k acc) (RowView.renumber anyRid v) step) ((f acc v step).map k))
    (h : ∀ s ∈ q.scans, R.shown anyRid s.access s.table = R'.shown anyRid s.access s.table) :
    SameResult ((q.readAll R f acc).map k) ((q.readAll R' f acc).map k) ∧
      q.readsTouch R f acc = q.readsTouch R' f acc := by
  obtain ⟨hstream, htouches⟩ := stream_renumber q h
  rw [readAll, readAll, readsTouch, readsTouch, htouches]
  cases hs : q.stream R with
  | error e =>
    cases hs' : q.stream R' with
    | error e' =>
      rw [hs, hs'] at hstream
      cases hstream
      exact ⟨rfl, rfl⟩
    | ok s' =>
      rw [hs, hs'] at hstream
      cases hstream
  | ok s =>
    cases hs' : q.stream R' with
    | error e' =>
      rw [hs, hs'] at hstream
      cases hstream
    | ok s' =>
      rw [hs, hs'] at hstream
      have hsame : s.renumber anyRid = s'.renumber anyRid := Except.ok.inj hstream
      obtain ⟨hfold, htouch⟩ := Stream.fold_renumber anyRid hf s acc
      obtain ⟨hfold', htouch'⟩ := Stream.fold_renumber anyRid hf s' acc
      rw [hsame] at hfold htouch
      refine ⟨hfold.symm.trans hfold', ?_⟩
      simp only [Stream.readTouches, ← htouch, htouch']

namespace Session

theorem collectValues_anyRid (stmt : Statement) (db : Database) (rows : Array (List Value)) (v : RowView)
    (step : Step) : SameResult (collectValues stmt db rows (v.renumber anyRid) step)
      ((collectValues stmt db rows v step).map id) := by
  simp only [collectValues, RowView.copy_renumber]
  cases v.copy with
  | error e => rfl
  | ok row =>
    simp only [Except.map, bind, Except.bind]
    split
    · simp only [Row.renumber]
      cases row.rid <;> rfl
    · rfl

end Session

namespace Operator

variable (table : TableId) (kind : OperatorKind) (db : Database)

private theorem changeTarget_anyRid (v : RowView) (step : Step) :
    SameResult (changeTarget table kind db (v.renumber anyRid) step)
      ((changeTarget table kind db v step).map anyRid) := by
  simp only [changeTarget, RowView.rid_renumber]
  cases v.rid with
  | none => rfl
  | some rid =>
    simp only [Option.map_some]
    split <;> rfl

theorem collectTarget_anyRid (rids : Array RowId) (v : RowView) (step : Step) :
    SameResult (collectTarget table kind db (rids.map anyRid) (v.renumber anyRid) step)
      ((collectTarget table kind db rids v step).map (·.map anyRid)) := by
  apply SameResult.bind (changeTarget_anyRid table kind db v step)
  intro rid
  exact .of_eq (congrArg Except.ok Array.map_push.symm)

theorem assign_renumber (v : RowView) (assignments : List (Nat × Expr)) (values : List Value) :
    assign (v.renumber anyRid) assignments values = assign v assignments values := by
  induction assignments generalizing values with
  | nil => rfl
  | cons a rest ih => simp only [assign, RowView.eval_renumber, ih]

def anyChange (change : RowId × List Value) : RowId × List Value := (anyRid change.1, change.2)

theorem collectChange_anyRid (assignments : List (Nat × Expr)) (changes : Array (RowId × List Value))
    (v : RowView) (step : Step) :
    SameResult (collectChange table assignments kind db (changes.map anyChange) (v.renumber anyRid) step)
      ((collectChange table assignments kind db changes v step).map (·.map anyChange)) := by
  apply SameResult.bind (changeTarget_anyRid table kind db v step)
  intro rid
  simp only [RowView.values_renumber, assign_renumber]
  cases v.values with
  | error e => rfl
  | ok values =>
    simp only [bind, Except.bind]
    cases assign v assignments values with
    | error e => rfl
    | ok values =>
      have hpush : (changes.push (rid, values)).map anyChange =
          (changes.map anyChange).push (anyChange (rid, values)) := Array.map_push
      exact .of_eq (congrArg Except.ok hpush.symm)

variable {table kind db} {db' : Database}

theorem collectTarget_congr (h : db.catalog.SameLayout db'.catalog) :
    collectTarget table kind db = collectTarget table kind db' := by
  funext rids v step
  simp only [collectTarget, changeTarget, Catalog.tableName_congr h]

theorem collectChange_congr {assignments : List (Nat × Expr)} (h : db.catalog.SameLayout db'.catalog) :
    collectChange table assignments kind db = collectChange table assignments kind db' := by
  funext rids v step
  simp only [collectChange, changeTarget, Catalog.tableName_congr h]

end Operator

def Statement.manipulates : Statement → Bool
  | compute _ | select _ | insert .. | delete .. | update .. => true
  | _ => false

namespace Database

theorem Mirrors.phase {t u : TxHandle} {db db' : Database} (m : Mirrors t db db') (hs : db.Sound)
    (hs' : db'.Sound) (hu : db'.Active u) (started : Bool) :
    Mirrors t (db.phase (t.past u) started) (db'.phase u started) := by
  cases started with
  | false => exact m
  | true => exact m.begun hs hs' hu

/-- Corresponding rows are stamped and the same rows appended in the transaction of a statement. -/
theorem Mirrors.applied_phase {t u : TxHandle} {db db' d d' : Database} {table : TableId}
    {rids rids' : List RowId} {rows : List (List Value)} (m : Mirrors t db db') (hs : db.Sound)
    (hs' : db'.Sound) (hu : db'.Active u) (started : Bool)
    (h : (db.phase (t.past u) started).Applied (db.start (t.past u)).1 table rids rows d)
    (h' : (db'.phase u started).Applied (db'.start u).1 table rids' rows d')
    (hrids : ∀ p ∈ pairs t db db' table, p.1.rid ∈ rids ↔ p.2.rid ∈ rids') : Mirrors t d d' := by
  have hnumber : (db.phase (t.past u) started).number? t = db.number? t := by
    cases started with
    | false => rfl
    | true => exact number?_begun_of_ne (TxHandle.past_ne t u).symm
  apply (m.phase hs hs' hu started).applied _ h h'
  · rw [pairs, kept_congr phase_catalog hnumber, phase_catalog]
    exact hrids
  · rw [hnumber]
    exact (m.start hu.1).1

/-- The database has the transaction `t` that was rolled back in addition to what another one has. -/
structure Retraces (t : TxHandle) (db db' : Database) : Prop where
  mirrors : Mirrors t db db'
  undone : (db.transaction t).ending = some .aborted
  reachable : db.Reachable
  reachable' : db'.Reachable

namespace Retraces

variable {t : TxHandle} {db db' : Database} (h : db.Retraces t db')
include h

theorem sound : db.Sound := sound_of_reachable h.reachable

theorem sound' : db'.Sound := sound_of_reachable h.reachable'

theorem formed : db.catalog.Formed := formed_of_reachable h.reachable

theorem formed' : db'.catalog.Formed := formed_of_reachable h.reachable'

theorem begin (isolation : Isolation) :
    Retraces t (db.begin isolation).2 (db'.begin isolation).2 where
  mirrors := (h.mirrors.begin isolation).2
  undone := by rw [transaction_begin h.mirrors.knows, h.undone]
  reachable := reachable_works h.reachable (works_begin (p := fun _ => True) trivial)
  reachable' := reachable_works h.reachable' (works_begin (p := fun _ => True) trivial)

end Retraces

end Database

namespace Session

variable {s : Session} {t u : TxHandle} {db db' : Database} {op : Operator} {table : TableId}
  {filter : Option Expr}

/-- Two turns of a statement answer the same and leave databases of which one mirrors the other. -/
def SameTurn (t : TxHandle) (turn turn' : Turn QueryResult) : Prop :=
  SameResult turn.answer turn'.answer ∧ Database.Mirrors t turn.db turn'.db

private theorem sameTurn_of_outcome {turn turn' : Turn QueryResult}
    {answer answer' : Except ExecError QueryResult} {d d' : Database} (h : turn.outcome = (answer, d))
    (h' : turn'.outcome = (answer', d')) (hanswer : SameResult answer answer')
    (hmirrors : Database.Mirrors t d d') : SameTurn t turn turn' := by
  constructor
  · rwa [Turn.answer_of_outcome h, Turn.answer_of_outcome h']
  · rwa [Turn.db_of_outcome h, Turn.db_of_outcome h']

private def storing (count : Nat) (db : Database) : Option SchemaError →
    Except ExecError QueryResult × Database
  | none => (.ok (.modified count), db)
  | some e => (.error (.transaction (.storage (.schema e))), db)

private theorem sameTurn_of_storing {turn turn' : Turn QueryResult} {fault : Option SchemaError}
    {count : Nat} {d d' : Database} (h : turn.outcome = storing count d fault)
    (h' : turn'.outcome = storing count d' fault) (hmirrors : Database.Mirrors t d d') :
    SameTurn t turn turn' := by
  cases fault with
  | none => exact sameTurn_of_outcome h h' rfl hmirrors
  | some e => exact sameTurn_of_outcome h h' rfl hmirrors

private theorem shown_scans {q : QueryTree} (h : db.Retraces t db') (hu : db'.Active u) :
    ∀ scan ∈ q.scans, (db.reader (t.past u)).shown anyRid scan.access scan.table =
      (db'.reader u).shown anyRid scan.access scan.table :=
  fun scan _ => h.mirrors.shown h.sound h.sound' h.undone hu scan.access scan.table

private theorem sameTurn_select {query : Select} {q : QueryTree} (h : db.Retraces t db')
    (hu : db'.Active u) (hq : q.Fresh) :
    SameTurn t (drive (.select query) q.operator (t.past u) db) (drive (.select query) q.operator u db') := by
  obtain ⟨hanswer, hdb⟩ := drive_select_eq query hq (h.mirrors.active_past hu)
  obtain ⟨hanswer', hdb'⟩ := drive_select_eq query hq hu
  obtain ⟨hresult, htouches⟩ := QueryTree.readAll_sameShown #[]
    (collectValues_anyRid (.select query) db') (shown_scans h hu)
  rw [collectValues_congr (.select query) h.mirrors.layout] at hanswer hdb
  constructor
  · rw [hanswer, hanswer']
    apply hresult.map
    intro rows rows' hrows
    obtain rfl : rows = rows' := hrows
    rfl
  · rw [hdb, hdb', htouches]
    exact h.mirrors.phase h.sound h.sound' hu _

private theorem sameTurn_insert {records : List (List Value)} (h : db.Retraces t db') (hu : db'.Active u) :
    SameTurn t (drive (.insert table records) (.insert table records none) (t.past u) db)
      (drive (.insert table records) (.insert table records none) u db') := by
  obtain ⟨d, happlied, houtcome⟩ := outcome_insert table (h.mirrors.active_past hu) records
  obtain ⟨d', happlied', houtcome'⟩ := outcome_insert table hu records
  rw [h.mirrors.layout table] at happlied houtcome
  apply sameTurn_of_storing houtcome houtcome'
  exact h.mirrors.applied_phase h.sound h.sound' hu _ happlied happlied' fun _ _ => by simp

/-- The DELETE that was planned on `c`. -/
private abbrev deletion (c : Catalog) (policy : ConflictPolicy) (table : TableId) (filter : Option Expr)
    (u : TxHandle) (db : Database) : Turn QueryResult :=
  drive (.delete table filter) (.delete table (QueryTree.targets c policy table filter).operator none) u db

private abbrev deleted (c : Catalog) (policy : ConflictPolicy) (table : TableId) (filter : Option Expr)
    (u : TxHandle) (db : Database) : Except ExecError (Array RowId) :=
  (QueryTree.targets c policy table filter).readAll (db.reader u) (Operator.collectTarget table
    (QueryTree.targets c policy table filter).operator.kind db) #[]

private theorem outcome_delete_error {c : Catalog} {policy : ConflictPolicy} {e : ExecError}
    (hu : db.Active u) (hread : deleted c policy table filter u db = .error e) :
    (deletion c policy table filter u db).outcome = (.error e, db.begun u) := by
  rw [deleted] at hread
  rw [drive_delete table filter (QueryTree.fresh_targets ..) hu, QueryTree.readThen, hread,
    QueryTree.readsTouch_targets]
  rfl

private theorem outcome_delete_ok {c : Catalog} {policy : ConflictPolicy} {rids : Array RowId}
    (hs : db.Sound) (hu : db.Active u) (hread : deleted c policy table filter u db = .ok rids) :
    ∃ d, (db.begun u).Applied (db.start u).1 table
        ((c.matching table (db.reader u) .write filter).map (·.rid)) [] d ∧
      (deletion c policy table filter u db).outcome =
        (.ok (.modified (c.matching table (db.reader u) .write filter).length), d) := by
  rcases outcome_delete c policy table filter hs hu with ⟨e, herror, _⟩ | ⟨_, d, happlied, houtcome⟩
  · cases hread.symm.trans herror
  · exact ⟨d, happlied, houtcome⟩

private theorem sameTurn_delete {c : Catalog} {policy : ConflictPolicy} (h : db.Retraces t db')
    (hu : db'.Active u) :
    SameTurn t (deletion c policy table filter (t.past u) db) (deletion c policy table filter u db') := by
  have hpast : db.Active (t.past u) := h.mirrors.active_past hu
  have hread : SameResult ((deleted c policy table filter (t.past u) db).map (·.map anyRid))
      ((deleted c policy table filter u db').map (·.map anyRid)) := by
    rw [deleted, Operator.collectTarget_congr h.mirrors.layout]
    exact (QueryTree.readAll_sameShown #[] (Operator.collectTarget_anyRid table _ db') (shown_scans h hu)).1
  rcases hread.cases with ⟨e, e', herror, herror', he⟩ | ⟨_, _, hok, hok', _⟩
  · exact sameTurn_of_outcome (outcome_delete_error hpast herror) (outcome_delete_error hu herror')
      (congrArg Except.error he) (h.mirrors.begun h.sound h.sound' hu)
  · obtain ⟨d, happlied, houtcome⟩ := outcome_delete_ok h.sound hpast hok
    obtain ⟨d', happlied', houtcome'⟩ := outcome_delete_ok h.sound' hu hok'
    obtain ⟨ps, hps, hmatching, hmatching'⟩ := h.mirrors.matching h.sound h.sound' h.undone hu c table filter
    rw [hmatching] at happlied houtcome
    rw [hmatching'] at happlied' houtcome'
    apply sameTurn_of_outcome houtcome houtcome' (.of_eq (by rw [List.length_map, List.length_map]))
    exact h.mirrors.applied_phase h.sound h.sound' hu true happlied happlied' fun p hp =>
      h.mirrors.mem_rids h.sound h.sound' hps hp

/-- The UPDATE that was planned on `c`. -/
private abbrev updating (c : Catalog) (policy : ConflictPolicy) (table : TableId) (sets : List Assignment)
    (targets : List (Nat × Expr)) (filter : Option Expr) (u : TxHandle) (db : Database) :
    Turn QueryResult :=
  drive (.update table sets filter) (.update table targets
    (QueryTree.targets c policy table filter).operator none) u db

private abbrev updated (c : Catalog) (policy : ConflictPolicy) (table : TableId)
    (targets : List (Nat × Expr)) (filter : Option Expr) (u : TxHandle) (db : Database) :
    Except ExecError (Array (RowId × List Value)) :=
  (QueryTree.targets c policy table filter).readAll (db.reader u) (Operator.collectChange table targets
    (QueryTree.targets c policy table filter).operator.kind db) #[]

private theorem outcome_update_error {c : Catalog} {policy : ConflictPolicy} {sets : List Assignment}
    {targets : List (Nat × Expr)} {e : ExecError} (hu : db.Active u)
    (hread : updated c policy table targets filter u db = .error e) :
    (updating c policy table sets targets filter u db).outcome = (.error e, db.begun u) := by
  rw [updated] at hread
  rw [drive_update table sets filter targets (QueryTree.fresh_targets ..) hu, QueryTree.readThen, hread,
    QueryTree.readsTouch_targets]
  rfl

private abbrev newValues (c : Catalog) (table : TableId) (targets : List (Nat × Expr)) (v : Version) :
    Except ExecError (List Value) :=
  Operator.assign (c.fullRow table v) targets v.values

private theorem newValues_congr {c : Catalog} {targets : List (Nat × Expr)} {v v' : Version}
    (h : v.values = v'.values) : newValues c table targets v = newValues c table targets v' := by
  rw [newValues, newValues, ← Operator.assign_renumber, Catalog.fullRow_anyRid h,
    Operator.assign_renumber, h]

private theorem values_of_replacement {c : Catalog} {vs : List Version} {targets : List (Nat × Expr)}
    {changes : List (RowId × List Value)} (h : vs.mapM (c.replacement table targets) = .ok changes) :
    vs.mapM (newValues c table targets) = .ok (changes.map (·.2)) := by
  induction vs generalizing changes with
  | nil =>
    cases h
    rfl
  | cons v vs ih =>
    obtain ⟨change, rest, hchange, hrest, rfl⟩ := mapM_eq_ok_cons h
    obtain ⟨values, hvalues, rfl⟩ := map_eq_ok.mp hchange
    rw [List.mapM_cons, newValues, hvalues, ih hrest]
    rfl

private theorem outcome_update_ok {c : Catalog} {policy : ConflictPolicy} {sets : List Assignment}
    {targets : List (Nat × Expr)} {collected : Array (RowId × List Value)} (hs : db.Sound)
    (hwidth : ∀ v ∈ (db.reader u).versions table, v.values.length = (c.table table).schema.width)
    (hu : db.Active u) (hread : updated c policy table targets filter u db = .ok collected) :
    ∃ values, (c.matching table (db.reader u) .write filter).mapM (newValues c table targets) =
        .ok values ∧
      ∃ d, let taken := values.takeWhile (db.catalog.table table).schema.fits
        (db.begun u).Applied (db.start u).1 table
          (((c.matching table (db.reader u) .write filter).take taken.length).map (·.rid)) taken d ∧
        (updating c policy table sets targets filter u db).outcome =
          storing values.length d (values.findSome? (db.catalog.table table).schema.recordFault?) := by
  rcases outcome_update c policy table filter hs hwidth hu sets targets with
    ⟨e, herror, _⟩ | ⟨_, changes, hchanges, d, happlied, houtcome⟩
  · cases hread.symm.trans herror
  · have hprefix := List.prefix_iff_eq_take.mp (List.takeWhile_prefix
      (l := changes) ((db.catalog.table table).schema.fits ∘ (·.2)))
    refine ⟨changes.map (·.2), values_of_replacement hchanges, d, ?_, ?_⟩
    · rw [List.takeWhile_map, List.length_map, List.map_take, ← rids_of_replacement hchanges,
        ← List.map_take, ← hprefix]
      exact happlied
    · rw [List.findSome?_map, List.length_map]
      exact houtcome

private theorem sameTurn_update {c : Catalog} {policy : ConflictPolicy} {sets : List Assignment}
    {targets : List (Nat × Expr)} (h : db.Retraces t db') (hu : db'.Active u)
    (hc : c.SameLayout db'.catalog) :
    SameTurn t (updating c policy table sets targets filter (t.past u) db)
      (updating c policy table sets targets filter u db') := by
  have hpast : db.Active (t.past u) := h.mirrors.active_past hu
  have hread : SameResult
      ((updated c policy table targets filter (t.past u) db).map (·.map Operator.anyChange))
      ((updated c policy table targets filter u db').map (·.map Operator.anyChange)) := by
    rw [updated, Operator.collectChange_congr h.mirrors.layout]
    exact (QueryTree.readAll_sameShown #[] (Operator.collectChange_anyRid table _ db' targets)
      (shown_scans h hu)).1
  rcases hread.cases with ⟨e, e', herror, herror', he⟩ | ⟨_, _, hok, hok', _⟩
  · exact sameTurn_of_outcome (outcome_update_error hpast herror) (outcome_update_error hu herror')
      (congrArg Except.error he) (h.mirrors.begun h.sound h.sound' hu)
  · have hwidth : ∀ v ∈ (db.reader (t.past u)).versions table,
        v.values.length = (c.table table).schema.width := by
      rw [hc table, ← h.mirrors.layout table]
      exact Database.length_values h.formed table
    have hwidth' : ∀ v ∈ (db'.reader u).versions table,
        v.values.length = (c.table table).schema.width := by
      rw [hc table]
      exact Database.length_values h.formed' table
    obtain ⟨values, hvalues, d, happlied, houtcome⟩ := outcome_update_ok h.sound hwidth hpast hok
    obtain ⟨values', hvalues', d', happlied', houtcome'⟩ := outcome_update_ok h.sound' hwidth' hu hok'
    obtain ⟨ps, hps, hmatching, hmatching'⟩ := h.mirrors.matching h.sound h.sound' h.undone hu c table filter
    -- Both compute the same values from corresponding rows.
    have hsame : values = values' := by
      rw [hmatching, List.mapM_map] at hvalues
      rw [hmatching', List.mapM_map] at hvalues'
      have hcongr : ps.mapM (newValues c table targets ∘ (·.1)) =
          ps.mapM (newValues c table targets ∘ (·.2)) :=
        mapM_congr fun p hp => newValues_congr (h.mirrors.alike table p (hps.subset hp)).values
      exact Except.ok.inj (hvalues.symm.trans (hcongr.trans hvalues'))
    subst hsame
    rw [hmatching, ← List.map_take, h.mirrors.layout table] at happlied
    rw [hmatching', ← List.map_take] at happlied'
    rw [h.mirrors.layout table] at houtcome
    apply sameTurn_of_storing houtcome houtcome'
    exact h.mirrors.applied_phase h.sound h.sound' hu true happlied happlied' fun p hp =>
      h.mirrors.mem_rids h.sound h.sound' ((List.take_sublist _ ps).trans hps) hp

theorem sameTurn_drive {stmt : Statement} (h : db.Retraces t db') (hu : db'.Active u)
    (hstmt : stmt.manipulates = true) (hop : s.plan db'.catalog stmt = .ok op) :
    SameTurn t (drive stmt op (t.past u) db) (drive stmt op u db') := by
  cases stmt with
  | compute exprs =>
    cases hop
    exact sameTurn_of_outcome (drive_compute exprs) (drive_compute exprs) rfl h.mirrors
  | select query =>
    obtain ⟨q, rfl, hfresh, _⟩ := plan_select hop
    exact sameTurn_select h hu hfresh
  | insert table records =>
    cases hop
    exact sameTurn_insert h hu
  | delete table filter =>
    rw [plan_delete] at hop
    cases hscan : Plan.writeScan db'.catalog table filter [] with
    | error e =>
      rw [hscan] at hop
      cases hop
    | ok p =>
      rw [hscan] at hop
      cases hop
      exact sameTurn_delete h hu
  | update table sets filter =>
    rw [plan_update] at hop
    cases htargets : updateTargets db'.catalog table sets filter with
    | error e =>
      rw [htargets] at hop
      cases hop
    | ok targets =>
      rw [htargets] at hop
      cases hop
      exact sameTurn_update h hu (.refl _)
  | _ => cases hstmt

end Session

end SnapshotSql
