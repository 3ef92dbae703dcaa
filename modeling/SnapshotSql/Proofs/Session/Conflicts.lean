import SnapshotSql.Proofs.Session.Stamps
/-! # When statements meet conflicts -/

namespace SnapshotSql

/-- A fold fails at the first element that a test finds, and comes to its end if the test finds none. -/
theorem foldlM_find {ε α β : Type} {p : α → Bool} {f : β → α → Except ε β} {cause : α → ε}
    {xs : List α} (hok : ∀ x ∈ xs, p x = false → ∀ b, ∃ b', f b x = .ok b')
    (herror : ∀ x ∈ xs, p x = true → ∀ b, f b x = .error (cause x)) (b : β) :
    (∀ x, xs.find? p = some x → xs.foldlM f b = .error (cause x)) ∧
      (xs.find? p = none → ∃ b', xs.foldlM f b = .ok b') := by
  induction xs generalizing b with
  | nil => exact ⟨nofun, fun _ => ⟨b, rfl⟩⟩
  | cons x xs ih =>
    obtain ⟨hx, hxs⟩ := List.forall_mem_cons.mp hok
    obtain ⟨hx', hxs'⟩ := List.forall_mem_cons.mp herror
    rw [List.find?_cons, List.foldlM_cons]
    cases hp : p x with
    | true =>
      refine ⟨?_, nofun⟩
      rintro _ ⟨⟩
      rw [hx' hp b]
      rfl
    | false =>
      obtain ⟨b', hb'⟩ := hx hp b
      rw [hb']
      exact ih hxs hxs' b'

namespace Stream

variable {policy : ConflictPolicy} {test : RowView → Except ExecError Bool}

theorem sift_eq_self (h : ∀ v, test v = .ok true) (s : Stream) : s.sift policy test = s := by
  induction s with
  | done => rfl
  | fail e => rfl
  | row v c rest ih => simp only [sift_row, h, Bool.true_or, if_true, ih]
  | touch rest ih => exact congrArg touch ih

/-- Take in a version that is not invisible, if it passes a test or the policy surfaces it. -/
def takeVersion {σ : Type} (policy : ConflictPolicy) (test : RowView → Except ExecError Bool)
    (f : σ → RowView → Step → Except ExecError σ) (see : Version → Visibility)
    (view : Version → RowView) (acc : σ) (v : Version) : Except ExecError σ :=
  match see v with
  | .invisible => .ok acc
  | seen =>
    match test (view v) with
    | .error e => .error e
    | .ok passed =>
      if passed || TableScan.surfaces policy (TableScan.stepOf seen) then
        f acc (view v) (TableScan.stepOf seen)
      else .ok acc

theorem fold_row {σ : Type} (f : σ → RowView → Step → Except ExecError σ) (v : RowView) (c : Bool)
    (rest : Stream) (acc : σ) :
    (row v c rest).fold f acc = f acc v (.of c) >>= fun acc => rest.fold f acc := by
  rw [fold]
  cases f acc v (.of c) <;> rfl

theorem fold_sift_ofVersions {σ : Type} (f : σ → RowView → Step → Except ExecError σ)
    (see : Version → Visibility) (view : Version → RowView) (vs : List Version) (acc : σ) :
    ((ofVersions see view vs).sift policy test).fold f acc =
      vs.foldlM (takeVersion policy test f see view) acc := by
  induction vs generalizing acc with
  | nil => rfl
  | cons v vs ih =>
    have hseen : ∀ c : Bool, takeVersion policy test f see view acc v =
        (match test (view v) with
        | .error e => .error e
        | .ok passed =>
          if passed || TableScan.surfaces policy (.of c) then f acc (view v) (.of c) else .ok acc) →
        ((row (view v) c (ofVersions see view vs)).sift policy test).fold f acc =
          (v :: vs).foldlM (takeVersion policy test f see view) acc := by
      intro c hv
      rw [List.foldlM_cons, hv, sift_row]
      cases test (view v) with
      | error e => rfl
      | ok passed =>
        dsimp only
        split
        · rw [fold_row]
          exact congrArg _ (funext ih)
        · exact ih acc
    rw [ofVersions]
    cases hsee : see v with
    | invisible =>
      rw [List.foldlM_cons, takeVersion, hsee]
      exact ih acc
    | visible =>
      refine hseen false ?_
      rw [takeVersion, hsee]
      rfl
    | contested =>
      refine hseen true ?_
      rw [takeVersion, hsee]
      rfl

end Stream

/-- Whether a version is in the way of a statement: another transaction is at it, and it meets the
condition or the policy surfaces it anyway. -/
def Catalog.obstructs (c : Catalog) (table : TableId) (R : Reader) (policy : ConflictPolicy)
    (filter : Option Expr) (v : Version) : Bool :=
  R.see .write v = .contested &&
    (policy = .surfaceAll || (c.meets table filter v).toOption = some true)

namespace QueryTree

variable {σ : Type} {R : Reader} {c : Catalog} {policy policy' : ConflictPolicy} {table : TableId}
  {filter : Option Expr} {f : σ → RowView → Step → Except ExecError σ}

private def decideRow (filter : Option Expr) (v : RowView) : Except ExecError Bool :=
  filter.elim (.ok true) v.holds

private theorem decideRow_fullRow (v : Version) :
    decideRow filter (c.fullRow table v) = c.meets table filter v := by
  cases filter <;> rfl

private theorem readAll_targets_eq (acc : σ) : (targets c policy table filter).readAll R f acc =
    (R.versions table).foldlM (Stream.takeVersion policy (decideRow filter) f (R.see .write)
      (c.fullRow table)) acc := by
  have hscan : Stream.ofScan R (.ofTargets c policy table) =
      Stream.ofVersions (R.see .write) (c.fullRow table) (R.versions table) :=
    Stream.sift_eq_self (fun _ => rfl) _
  have hstream : (targets c policy table filter).stream R = .ok ((Stream.ofVersions (R.see .write)
      (c.fullRow table) (R.versions table)).sift policy (decideRow filter)) := by
    cases filter with
    | none => exact congrArg Except.ok (hscan.trans (Stream.sift_eq_self (fun _ => rfl) _).symm)
    | some condition =>
      rw [targets, stream, stream, hscan]
      simp only [RowView.holds_joined_empty]
      rfl
  rw [readAll, hstream]
  exact Stream.fold_sift_ofVersions f (R.see .write) (c.fullRow table) (R.versions table) acc

/-- Collecting stops at the first version that is in the way, and comes to its end if there is none. -/
theorem readAll_targets_obstructed (policy : ConflictPolicy) (cause : Version → ExecError)
    (hmeets : ∀ v ∈ R.versions table, R.see .write v ≠ .invisible → ∃ met, c.meets table filter v = .ok met)
    (hrow : ∀ v ∈ R.versions table, R.see .write v ≠ .invisible →
      ∀ acc, ∃ acc', f acc (c.fullRow table v) .row = .ok acc')
    (hcontested : ∀ acc v, f acc (c.fullRow table v) .contested = .error (cause v)) (acc : σ) :
    (∀ v, (R.versions table).find? (c.obstructs table R policy filter) = some v →
      (targets c policy table filter).readAll R f acc = .error (cause v)) ∧
    ((R.versions table).find? (c.obstructs table R policy filter) = none →
      ∃ acc', (targets c policy table filter).readAll R f acc = .ok acc') := by
  rw [readAll_targets_eq]
  apply foldlM_find
  · intro v hv hclear acc
    rw [Stream.takeVersion]
    cases hsee : R.see .write v with
    | invisible => exact ⟨acc, rfl⟩
    | visible =>
      obtain ⟨met, hmet⟩ := hmeets v hv (by rw [hsee]; exact nofun)
      simp only [decideRow_fullRow, hmet]
      split
      · exact hrow v hv (by rw [hsee]; exact nofun) acc
      · exact ⟨acc, rfl⟩
    | contested =>
      obtain ⟨met, hmet⟩ := hmeets v hv (by rw [hsee]; exact nofun)
      simp only [Catalog.obstructs, hsee, hmet, Except.toOption, decide_true, Bool.true_and] at hclear
      simp only [decideRow_fullRow, hmet]
      rw [if_neg]
      · exact ⟨acc, rfl⟩
      · simpa [TableScan.surfaces, TableScan.stepOf, and_comm] using hclear
  · intro v hv hobstructs acc
    simp only [Catalog.obstructs, Bool.and_eq_true, decide_eq_true_eq] at hobstructs
    obtain ⟨hsee, hpass⟩ := hobstructs
    obtain ⟨met, hmet⟩ := hmeets v hv (by rw [hsee]; exact nofun)
    simp only [Stream.takeVersion, hsee, decideRow_fullRow, hmet]
    rw [if_pos]
    · exact hcontested acc v
    · simpa [TableScan.surfaces, TableScan.stepOf, hmet, Except.toOption, or_comm] using hpass

theorem readAll_targets_congr
    (h : ∀ v ∈ R.versions table, c.obstructs table R policy filter v = false)
    (h' : ∀ v ∈ R.versions table, c.obstructs table R policy' filter v = false) (acc : σ) :
    (targets c policy table filter).readAll R f acc =
      (targets c policy' table filter).readAll R f acc := by
  rw [readAll_targets_eq, readAll_targets_eq]
  refine foldlM_congr (fun v hv acc => ?_) acc
  have hv := h v hv
  have hv' := h' v ‹_›
  rw [Stream.takeVersion, Stream.takeVersion]
  cases hsee : R.see .write v with
  | invisible => rfl
  | visible => rfl
  | contested =>
    simp only [Catalog.obstructs, hsee, decide_true, Bool.true_and, Bool.or_eq_false_iff,
      decide_eq_false_iff_not] at hv hv'
    simp only [TableScan.surfaces, TableScan.stepOf, hv.1, hv'.1]

end QueryTree

/-- The assignments that a statement makes. -/
def Statement.assignments : Statement → List Assignment
  | update _ sets _ => sets
  | _ => []

/-- The condition and the assigned expressions of a statement can be evaluated on a version. -/
def Catalog.Evaluates (c : Catalog) (table : TableId) (sets : List Assignment) (filter : Option Expr)
    (v : Version) : Prop :=
  (∃ met, c.meets table filter v = .ok met) ∧ ∀ a ∈ sets, ∃ x, (c.fullRow table v).eval a.value = .ok x

/-- A statement fails because another transaction is at a row. -/
def Conflicted (answer : Except ExecError QueryResult) : Prop :=
  ∃ table rid, answer = .error (.transaction (.conflict table rid))

namespace Operator

theorem assign_total {view : RowView} {assignments : List (Nat × Expr)} (values : List Value)
    (h : ∀ a ∈ assignments, a.1 < values.length ∧ ∃ x, view.eval a.2 = .ok x) :
    ∃ values', assign view assignments values = .ok values' := by
  induction assignments generalizing values with
  | nil => exact ⟨values, rfl⟩
  | cons a rest ih =>
    obtain ⟨⟨hlt, x, hx⟩, hrest⟩ := List.forall_mem_cons.mp h
    obtain ⟨values', hvalues'⟩ := ih (values.set a.1 x) (by simpa using hrest)
    refine ⟨values', ?_⟩
    rw [assign, hx]
    exact (if_pos hlt).trans hvalues'

theorem collectChange_total {c : Catalog} {table : TableId} {targets : List (Nat × Expr)} {v : Version}
    (hwidth : v.values.length = (c.table table).schema.width)
    (h : ∀ target ∈ targets, target.1 < (c.table table).schema.width ∧
      ∃ x, (c.fullRow table v).eval target.2 = .ok x) (kind : OperatorKind) (db : Database)
    (acc : Array (RowId × List Value)) :
    ∃ acc', collectChange table targets kind db acc (c.fullRow table v) .row = .ok acc' := by
  obtain ⟨values, hvalues⟩ := assign_total v.values (hwidth ▸ h)
  refine ⟨acc.push (v.rid, values), ?_⟩
  show ((c.fullRow table v).values >>= fun old =>
    assign (c.fullRow table v) targets old >>= fun new => pure (acc.push (v.rid, new))) = _
  rw [Catalog.fullRow_values hwidth]
  show (assign (c.fullRow table v) targets v.values >>= _) = _
  rw [hvalues]
  rfl

end Operator

namespace Session

variable {c : Catalog} {t : TxHandle} {db : Database} {table : TableId} {filter : Option Expr}
  {stmt : Statement} {s s' : Session} {op op' : Operator}

private theorem eq_of_plan_delete (hop : s.plan c (.delete table filter) = .ok op) :
    op = .delete table (QueryTree.targets c s.options.policy table filter).operator none := by
  rw [plan_delete] at hop
  split at hop
  · cases hop
  · exact (Except.ok.inj hop).symm

/-- A statement fails at the first version that is in its way, and otherwise it meets no conflict. -/
theorem outcome_obstructed (hs : db.Sound)
    (hwidth : ∀ v ∈ (db.reader t).versions table, v.values.length = (c.table table).schema.width)
    (ht : db.Active t) (hstmt : stmt.changes? = some (table, filter))
    (hevaluates : ∀ v ∈ (db.reader t).versions table, (db.reader t).see .write v ≠ .invisible →
      c.Evaluates table stmt.assignments filter v) (hop : s.plan c stmt = .ok op) :
    (∀ v, ((db.reader t).versions table).find? (c.obstructs table (db.reader t) s.options.policy
        filter) = some v → (drive stmt op t db).outcome =
          (.error (.transaction (.conflict (db.catalog.tableName table) v.rid)), db.begun t)) ∧
    (((db.reader t).versions table).find? (c.obstructs table (db.reader t) s.options.policy
        filter) = none → ¬Conflicted (drive stmt op t db).outcome.1) := by
  have hmeets : ∀ v ∈ (db.reader t).versions table, (db.reader t).see .write v ≠ .invisible →
      ∃ met, c.meets table filter v = .ok met := fun v hv hsee => (hevaluates v hv hsee).1
  cases stmt with
  | delete =>
    cases hstmt
    obtain rfl := eq_of_plan_delete hop
    obtain ⟨hfirst, hclear⟩ := QueryTree.readAll_targets_obstructed s.options.policy
      (fun v => .transaction (.conflict (db.catalog.tableName table) v.rid))
      (f := Operator.collectTarget table
        (QueryTree.targets c s.options.policy table filter).operator.kind db)
      hmeets (fun v _ _ acc => ⟨acc.push v.rid, rfl⟩) (fun _ _ => rfl) #[]
    constructor
    · intro v hv
      rw [drive_delete table filter (QueryTree.fresh_targets ..) ht, QueryTree.readThen,
        hfirst v hv, QueryTree.readsTouch_targets]
      rfl
    · intro hnone
      obtain ⟨rids, hrids⟩ := hclear hnone
      rcases outcome_delete c s.options.policy table filter hs ht with
        ⟨e, herror, _⟩ | ⟨_, db', _, hdone⟩
      · cases hrids.symm.trans herror
      · rw [hdone]
        rintro ⟨_, _, ⟨⟩⟩
  | update table sets filter =>
    cases hstmt
    obtain ⟨targets, htargets, rfl⟩ := eq_of_plan_update hop
    have hrow : ∀ v ∈ (db.reader t).versions table, (db.reader t).see .write v ≠ .invisible →
        ∀ target ∈ targets, target.1 < (c.table table).schema.width ∧
          ∃ x, (c.fullRow table v).eval target.2 = .ok x := by
      intro v hv hsee target htarget
      obtain ⟨hlt, a, ha, hvalue⟩ := mem_updateTargets htargets target htarget
      rw [hvalue]
      exact ⟨hlt, (hevaluates v hv hsee).2 a ha⟩
    obtain ⟨hfirst, hclear⟩ := QueryTree.readAll_targets_obstructed s.options.policy
      (fun v => .transaction (.conflict (db.catalog.tableName table) v.rid))
      (f := Operator.collectChange table targets
        (QueryTree.targets c s.options.policy table filter).operator.kind db)
      hmeets (fun v hv hsee => Operator.collectChange_total (hwidth v hv) (hrow v hv hsee) _ _)
      (fun _ _ => rfl) #[]
    constructor
    · intro v hv
      rw [drive_update table sets filter targets (QueryTree.fresh_targets ..) ht,
        QueryTree.readThen, hfirst v hv, QueryTree.readsTouch_targets]
      rfl
    · intro hnone
      obtain ⟨changes, hchanges⟩ := hclear hnone
      rcases outcome_update c s.options.policy table filter hs hwidth ht sets targets with
        ⟨e, herror, _⟩ | ⟨_, changes', _, db', _, hdone⟩
      · cases hchanges.symm.trans herror
      · rw [hdone]
        cases changes'.findSome? fun change =>
          (db.catalog.table table).schema.recordFault? change.2 with
        | none => rintro ⟨_, _, ⟨⟩⟩
        | some e => rintro ⟨_, _, ⟨⟩⟩
  | _ => cases hstmt

private theorem kind_targets (c : Catalog) (policy policy' : ConflictPolicy) (table : TableId)
    (filter : Option Expr) : (QueryTree.targets c policy table filter).operator.kind =
      (QueryTree.targets c policy' table filter).operator.kind := by
  cases filter <;> rfl

theorem outcome_unobstructed (ht : db.Active t) (hstmt : stmt.changes? = some (table, filter))
    (hop : s.plan c stmt = .ok op) (hop' : s'.plan c stmt = .ok op')
    (hclear : ((db.reader t).versions table).find?
      (c.obstructs table (db.reader t) s.options.policy filter) = none)
    (hclear' : ((db.reader t).versions table).find?
      (c.obstructs table (db.reader t) s'.options.policy filter) = none) :
    (drive stmt op t db).outcome = (drive stmt op' t db).outcome := by
  have hread : ∀ {σ : Type} (f : σ → RowView → Step → Except ExecError σ) (acc : σ)
      (go : σ → Database → Except ExecError QueryResult × Database),
      (QueryTree.targets c s.options.policy table filter).readThen t db f acc go =
        (QueryTree.targets c s'.options.policy table filter).readThen t db f acc go := by
    intro σ f acc go
    simp only [List.find?_eq_none, Bool.not_eq_true] at hclear hclear'
    rw [QueryTree.readThen, QueryTree.readThen, QueryTree.readsTouch_targets,
      QueryTree.readsTouch_targets, QueryTree.readAll_targets_congr hclear hclear']
  have hkind := kind_targets c s.options.policy s'.options.policy table filter
  cases stmt with
  | delete =>
    cases hstmt
    rw [eq_of_plan_delete hop, eq_of_plan_delete hop',
      drive_delete table filter (QueryTree.fresh_targets ..) ht,
      drive_delete table filter (QueryTree.fresh_targets ..) ht, hkind, hread]
  | update table sets filter =>
    cases hstmt
    obtain ⟨targets, htargets, rfl⟩ := eq_of_plan_update hop
    obtain ⟨targets', htargets', rfl⟩ := eq_of_plan_update hop'
    obtain rfl := Except.ok.inj (htargets.symm.trans htargets')
    rw [drive_update table sets filter targets (QueryTree.fresh_targets ..) ht,
      drive_update table sets filter targets (QueryTree.fresh_targets ..) ht, hkind, hread]
  | _ => cases hstmt

/-- A statement that changes stored rows is planned at some time and run under an active transaction later,
where its expressions can be evaluated on all versions that the transaction comes across. If contested
versions that do not meet its condition are absorbed, it fails with a conflict if and only if a contested
version meets the condition, and if they surface, if and only if any version is contested. The conflict is
at the first such version, and nothing but the start of the transaction has happened then. Two policies
under which there is no conflict come to the same. -/
theorem conflicted_iff (h : History) {j k : Nat} (hjk : j ≤ k) (ht : (h.stateAt k).Active t)
    (htable : table.index < (h.stateAt j).catalog.tables.size)
    (hstmt : stmt.changes? = some (table, filter))
    (hevaluates : ∀ v ∈ ((h.stateAt k).reader t).versions table,
      ((h.stateAt k).reader t).see .write v ≠ .invisible →
        (h.stateAt j).catalog.Evaluates table stmt.assignments filter v) :
    let c := (h.stateAt j).catalog
    let db := h.stateAt k
    let R := db.reader t
    (∀ (s : Session) (op : Operator), s.plan c stmt = .ok op →
      (s.options.policy = .absorbUnmatched → (Conflicted (drive stmt op t db).outcome.1 ↔
        ∃ v ∈ R.versions table, R.see .write v = .contested ∧ c.meets table filter v = .ok true)) ∧
      (s.options.policy = .surfaceAll → (Conflicted (drive stmt op t db).outcome.1 ↔
        ∃ v ∈ R.versions table, R.see .write v = .contested)) ∧
      (Conflicted (drive stmt op t db).outcome.1 → ∃ v,
        (R.versions table).find? (c.obstructs table R s.options.policy filter) = some v ∧
        (drive stmt op t db).outcome =
          (.error (.transaction (.conflict (db.catalog.tableName table) v.rid)), db.begun t) ∧
        (db.begun t).catalog = db.catalog)) ∧
    ∀ (s s' : Session) (op op' : Operator), s.plan c stmt = .ok op → s'.plan c stmt = .ok op' →
      ¬Conflicted (drive stmt op t db).outcome.1 → ¬Conflicted (drive stmt op' t db).outcome.1 →
        (drive stmt op t db).outcome = (drive stmt op' t db).outcome := by
  intro c db R
  have hsound : db.Sound := h.sound_stateAt k
  have hextends : c.Extends db.catalog := h.extends_stateAt hjk
  have hwidth : ∀ v ∈ R.versions table, v.values.length = (c.table table).schema.width := by
    intro v hv
    rw [Database.length_values (h.formed_stateAt k) table v hv, TableSchema.width, TableSchema.width,
      hextends.columns htable]
  have hconflicted : ∀ (s : Session) (op : Operator), s.plan c stmt = .ok op →
      (Conflicted (drive stmt op t db).outcome.1 ↔
        ∃ v ∈ R.versions table, c.obstructs table R s.options.policy filter v = true) := by
    intro s op hop
    obtain ⟨hfirst, hclear⟩ := outcome_obstructed hsound hwidth ht hstmt hevaluates hop
    rw [← List.find?_isSome]
    cases hfind : (R.versions table).find? (c.obstructs table R s.options.policy filter) with
    | none => exact iff_of_false (hclear hfind) (by simp)
    | some v =>
      rw [hfirst v hfind]
      exact iff_of_true ⟨_, _, rfl⟩ rfl
  have hnone : ∀ (s : Session) (op : Operator), s.plan c stmt = .ok op →
      ¬Conflicted (drive stmt op t db).outcome.1 →
      (R.versions table).find? (c.obstructs table R s.options.policy filter) = none := by
    intro s op hop hcalm
    rw [hconflicted s op hop, ← List.find?_isSome] at hcalm
    simpa using hcalm
  refine ⟨fun s op hop => ⟨?_, ?_, ?_⟩, ?_⟩
  · intro hpolicy
    rw [hconflicted s op hop]
    simp [Catalog.obstructs, hpolicy, toOption_eq_some]
  · intro hpolicy
    rw [hconflicted s op hop]
    simp [Catalog.obstructs, hpolicy]
  · intro hconflict
    obtain ⟨v, hv⟩ := Option.isSome_iff_exists.mp
      (List.find?_isSome.mpr ((hconflicted s op hop).mp hconflict))
    exact ⟨v, hv, (outcome_obstructed hsound hwidth ht hstmt hevaluates hop).1 v hv, Database.begun_catalog⟩
  · intro s s' op op' hop hop' hcalm hcalm'
    exact outcome_unobstructed ht hstmt hop hop' (hnone s op hop hcalm) (hnone s' op' hop' hcalm')

/-- A table gets two rows, which are committed. A transaction deletes the first one, and another begins. -/
def halfTaken : History :=
  [.keepTable ⟨"t", [⟨"a", .integer, true⟩]⟩, .begin .readCommitted,
    .insertRow ⟨0⟩ ⟨0⟩ [.integer 1], .insertRow ⟨0⟩ ⟨0⟩ [.integer 2], .commit ⟨0⟩,
    .begin .readCommitted, .deleteRow ⟨1⟩ ⟨0⟩ ⟨0⟩, .begin .readCommitted]

/-- `t.a = 2`. -/
def isTwo : Expr := .comparison .eq (.field ⟨"t", "a", .integer⟩) (.literal (.integer 2))

/-- `DELETE FROM t WHERE t.a = 2`, while the other row is contested. -/
theorem conflicted_iff_halfTaken :
    let db := halfTaken.stateAt 8
    let lower policy := (Operator.delete ⟨0⟩
      (QueryTree.targets db.catalog policy ⟨0⟩ (some isTwo)).operator none)
    db.Active ⟨2⟩ ∧
      ¬Conflicted (drive (.delete ⟨0⟩ (some isTwo)) (lower .absorbUnmatched) ⟨2⟩ db).outcome.1 ∧
      (drive (.delete ⟨0⟩ (some isTwo)) (lower .surfaceAll) ⟨2⟩ db).outcome =
        (.error (.transaction (.conflict "t" ⟨0⟩)), db.begun ⟨2⟩) := by
  intro db lower
  have hactive : db.Active ⟨2⟩ := ⟨by decide, rfl⟩
  have hversions : (db.reader ⟨2⟩).versions ⟨0⟩ =
      [⟨⟨0⟩, [.integer 1], ⟨1⟩, some ⟨2⟩⟩, ⟨⟨1⟩, [.integer 2], ⟨1⟩, none⟩] := by decide +kernel
  have hevaluates : ∀ v ∈ (db.reader ⟨2⟩).versions ⟨0⟩, (db.reader ⟨2⟩).see .write v ≠ .invisible →
      db.catalog.Evaluates ⟨0⟩ [] (some isTwo) v := by
    simp only [hversions, List.forall_mem_cons]
    exact ⟨fun _ => ⟨⟨false, rfl⟩, nofun⟩, fun _ => ⟨⟨true, rfl⟩, nofun⟩, nofun⟩
  have hchanges : (Statement.delete ⟨0⟩ (some isTwo)).changes? = some (⟨0⟩, some isTwo) := rfl
  obtain ⟨hsession, -⟩ := conflicted_iff halfTaken (Nat.le_refl 8) hactive (by decide) hchanges
    hevaluates
  obtain ⟨habsorbs, -, -⟩ := hsession {} (lower .absorbUnmatched) rfl
  obtain ⟨-, hsurfaces, hfirst⟩ := hsession { options := { policy := .surfaceAll } }
    (lower .surfaceAll) rfl
  refine ⟨hactive, ?_, ?_⟩
  · rw [habsorbs rfl, hversions]
    rintro ⟨v, hv, hsee, hmeets⟩
    simp only [List.mem_cons, List.not_mem_nil, or_false] at hv
    rcases hv with rfl | rfl
    · cases (hmeets : Except.ok false = .ok true)
    · exact absurd hsee (by decide +kernel)
  · obtain ⟨v, hv, houtcome, -⟩ := hfirst ((hsurfaces rfl).mpr
      ⟨⟨⟨0⟩, [.integer 1], ⟨1⟩, some ⟨2⟩⟩, by rw [hversions]; decide, by decide +kernel⟩)
    have hrid : (some v).map (·.rid) = some (⟨0⟩ : RowId) := by
      rw [← hv]
      decide +kernel
    rw [Option.map_some, Option.some.injEq] at hrid
    rw [houtcome, hrid]
    rfl

end Session

end SnapshotSql
