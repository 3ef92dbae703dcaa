import SnapshotSql.Proofs.Session.System
import SnapshotSql.Proofs.Transaction.Listing
/-! # Tables laid out by statements -/

namespace SnapshotSql

def Statement.layout? (c : Catalog) : Statement → Option TxOp
  | createTable name columns => some (.createTable name columns)
  | renameTable table newName => some (.renameTable (c.tableName table) newName)
  | _ => none

variable {stmt : Statement} {op : TxOp} {c : Catalog}

theorem Statement.layout?_eq_none : stmt.layout? c = none ↔ stmt.arranges = false := by
  cases stmt <;> simp [layout?, arranges]

theorem Statement.of_layout? (h : stmt.layout? c = some op) :
    op.arranges = true ∧ ∀ schema, op ≠ .keepTable schema := by
  cases stmt <;> cases h <;> exact ⟨rfl, nofun⟩

namespace Session

variable {s : Session} {db : Database} {t : TxHandle}

/-- Statements that lay out tables are planned, and driving them does what they stand for. -/
private theorem drive_layout (h : stmt.layout? db.catalog = some op) :
    ∃ tree, s.plan db.catalog stmt = .ok tree ∧
      s.execute stmt db = s.run stmt tree db ∧
      ∀ t (db' : Database), db'.catalog = db.catalog →
        (drive stmt tree t db').answer.isOk = (op.perform db).1 ∧
        (drive stmt tree t db').db.catalog = (op.perform db).2.catalog := by
  have hcongr : ∀ db' : Database, db'.catalog = db.catalog →
      (op.perform db').1 = (op.perform db).1 ∧
        (op.perform db').2.catalog = (op.perform db).2.catalog :=
    fun _ => TxOp.perform_congr (Statement.of_layout? h).1
  cases stmt <;> cases h
  case createTable name columns =>
    refine ⟨.createTable name columns, rfl, rfl, ?_⟩
    intro t db' hc
    rw [(drive_createTable name columns).1, (drive_createTable name columns).2]
    exact hcongr db' hc
  case renameTable table newName =>
    refine ⟨.rename table newName, rfl, rfl, ?_⟩
    intro t db' hc
    rw [(drive_renameTable table newName).1, (drive_renameTable table newName).2, hc]
    exact hcongr db' hc

private theorem catalog_run {tree : Operator} {db' : Database} (hentered : s.entered db = (t, db'))
    (hactive : (drive stmt tree t db').db.Active t) :
    (s.run stmt tree db).db.catalog = (drive stmt tree t db').db.catalog := by
  rw [entered] at hentered
  cases hheld : s.held with
  | some tx =>
    rw [hheld] at hentered
    cases hentered
    rw [(parts_of_eq (run_held hheld)).2.2]
  | none =>
    rw [hheld] at hentered
    cases hauto : s.options.autoCommit with
    | false => rw [(parts_of_eq (run_opens hheld hauto hentered)).2.2]
    | true =>
      rw [(parts_of_eq (run_commits hheld hauto hentered hactive)).2.2, Database.ended_catalog]

/-- A statement that lays out tables does to the catalog what it stands for, and answers if that succeeds. -/
theorem execute_layout (hready : s.Ready db) (h : stmt.layout? db.catalog = some op) :
    (s.execute stmt db).result.isOk = (op.perform db).1 ∧
      (s.execute stmt db).db.catalog = (op.perform db).2.catalog := by
  obtain ⟨tree, hplan, hexecute, hdrive⟩ := drive_layout (s := s) h
  obtain ⟨t, db', hentered, hactive, hcatalog⟩ := exists_entered hready
  have hactive' := active_mayDo (works_drive hplan hactive) hactive
  obtain ⟨hanswer, hleft⟩ := hdrive t db' hcatalog
  rw [hexecute, result_run hentered hactive', catalog_run hentered hactive']
  exact ⟨hanswer, hleft⟩

end Session

namespace System

variable {w : System} {events : List Event}

/-- Whatever statement a session runs, the database goes through operations that the statement may do. -/
theorem works_execute (hv : w.Valid) (i : Nat) (stmt : Statement) :
    ∃ isolation t, w.db.Works (stmt.MayRun isolation t) (w.execute i stmt).2.db := by
  cases hi : w.sessions[i]? with
  | none =>
    simp only [execute, hi]
    exact ⟨.readCommitted, ⟨0⟩, Database.works_refl _ _⟩
  | some s =>
    obtain ⟨t, -, hstep⟩ := Session.step_execute stmt (hv.ready s (List.mem_of_getElem? hi))
    simp only [execute, hi]
    exact ⟨_, t, hstep.works⟩

/-- A session that is there lays out tables as the operation does for which its statement stands. -/
theorem execute_layout (hv : w.Valid) (i : Nat) (h : stmt.layout? w.db.catalog = some op) :
    w.execute i stmt = (none, w) ∨
      ((w.execute i stmt).1.map (·.isOk) = some (op.perform w.db).1 ∧
        (w.execute i stmt).2.db.catalog = (op.perform w.db).2.catalog) := by
  cases hi : w.sessions[i]? with
  | none =>
    left
    simp only [execute, hi]
  | some s =>
    right
    obtain ⟨hanswer, hcatalog⟩ :=
      Session.execute_layout (hv.ready s (List.mem_of_getElem? hi)) h
    simp only [execute, hi, Option.map_some, hanswer, hcatalog, and_self]

end System

namespace Event

variable {e : Event} {w : System}

/-- The name that an event gives to a table that there is. -/
def newName? : Event → Option String
  | operate op => op.newName?
  | execute _ (.renameTable _ newName) => some newName
  | _ => none

/-- An event is at most one change to the list of tables, as long as it keeps no table unlisted. -/
theorem relists_perform (hv : w.Valid) (he : ∀ schema, e ≠ .operate (.keepTable schema)) :
    w.db.catalog.Relists e.newName? (e.perform w).db.catalog := by
  cases e with
  | connect options => exact .same (.refl _)
  | operate op =>
    rw [perform]
    split
    · exact .same (.refl _)
    · apply op.relists_perform
      intro schema hop
      exact he schema (congrArg operate hop)
  | execute i stmt =>
    rw [perform]
    cases hlayout : stmt.layout? w.db.catalog with
    | some op =>
      rcases System.execute_layout hv i hlayout with hnone | ⟨-, hcatalog⟩
      · rw [hnone]
        exact .same (.refl _)
      · have hname : newName? (.execute i stmt) = op.newName? := by
          cases stmt <;> cases hlayout <;> rfl
        rw [hcatalog, hname]
        exact op.relists_perform (Statement.of_layout? hlayout).2 w.db
    | none =>
      -- No other statement lays out tables, so that none of its steps changes what is listed.
      obtain ⟨isolation, t, hworks⟩ := System.works_execute hv i stmt
      apply Catalog.Relists.same
      apply Database.works_keeps (P := fun db => w.db.catalog.SameListing db.catalog) hworks
      · intro op db hop hsame
        have harranges := Statement.arranges_of_mayRun hop (Statement.layout?_eq_none.mp hlayout)
        exact hsame.trans (op.sameListing_perform harranges db)
      · exact .refl _

theorem extends_perform (e : Event) (hv : w.Valid) :
    w.db.catalog.Extends (e.perform w).db.catalog := by
  cases e with
  | connect options => rfl
  | operate op =>
    rw [perform]
    split
    · rfl
    · exact op.extends_perform w.db
  | execute i stmt =>
    obtain ⟨isolation, t, hworks⟩ := System.works_execute hv i stmt
    apply Database.works_keeps (P := fun db => w.db.catalog.Extends db.catalog) hworks
    · intro op db _ hextends
      exact Catalog.extends_trans hextends (op.extends_perform db)
    · rfl

end Event

namespace System

variable {w : System} {events : List Event}

/-- A refused operation or statement for laying out tables leaves the catalog as it was. -/
structure RefusesCleanly (w : System) : Prop where
  operation : ∀ op : TxOp, op.arranges = true → (op.perform w.db).1 = false →
    (op.perform w.db).2.catalog = w.db.catalog
  statement : ∀ i stmt e, stmt.arranges = true → (w.execute i stmt).1 = some (.error e) →
    (w.execute i stmt).2.db.catalog = w.db.catalog

theorem refusesCleanly (hv : w.Valid) : w.RefusesCleanly where
  operation op harranges hrefused := by
    rw [TxOp.perform_refused harranges hrefused]
  statement i stmt e harranges he := by
    cases hlayout : stmt.layout? w.db.catalog with
    | none =>
      rw [Statement.layout?_eq_none.mp hlayout] at harranges
      cases harranges
    | some op =>
      rcases execute_layout hv i hlayout with hnone | ⟨hanswer, hcatalog⟩
      · rw [hnone]
      · rw [he] at hanswer
        have hrefused : (op.perform w.db).1 = false := (Option.some.inj hanswer).symm
        rw [hcatalog, TxOp.perform_refused (Statement.of_layout? hlayout).1 hrefused]

def catalogAfter (events : List Event) : Catalog := (after events).db.catalog

theorem extends_take (events : List Event) (k : Nat) :
    (catalogAfter (events.take k)).Extends (catalogAfter events) := by
  have hafter : after events = (after (events.take k)).run (events.drop k) := by
    rw [run, after, after, ← List.foldl_append, List.take_append_drop]
  rw [catalogAfter, catalogAfter, hafter]
  apply (run_keeps (p := fun _ => True)
    (P := fun w => (after (events.take k)).db.catalog.Extends w.db.catalog) _
    (fun _ _ => trivial) (valid_after _) _).2
  · intro e w _ hv hextends
    exact Catalog.extends_trans hextends (e.extends_perform hv)
  · rfl

private theorem relisted {P : Catalog → Prop} {p : Event → Prop}
    (hstep : ∀ e c c', p e → c.Relists (Event.newName? e) c' → P c → P c') (hempty : P {})
    (hlisted : ∀ schema, .operate (.keepTable schema) ∉ events) (hp : ∀ e ∈ events, p e) :
    P (catalogAfter events) := by
  apply (run_keeps (p := fun e => p e ∧ ∀ schema, e ≠ .operate (.keepTable schema))
    (P := fun w => P w.db.catalog) _ _ valid_empty hempty).2
  · intro e w he hv hw
    exact hstep e _ _ he.1 (Event.relists_perform hv he.2) hw
  · intro e he
    refine ⟨hp e he, ?_⟩
    intro schema heq
    exact hlisted schema (heq ▸ he)

/-- However tables are created and renamed, with or without success and with none kept unlisted, a name
finds the table that has it and no other, and every table stays behind its handle. The definition of a
table is one that is accepted unless its name is empty, which takes a renaming. What is refused leaves the
catalog as it was. -/
theorem catalogAfter_orderly (hlisted : ∀ schema, .operate (.keepTable schema) ∉ events) :
    (catalogAfter events).Orderly ∧
    (∀ name id, (catalogAfter events).find? name = some id ↔
      id.index < (catalogAfter events).tables.size ∧ (catalogAfter events).tableName id = name) ∧
    (∀ id, id.index < (catalogAfter events).tables.size →
      (((catalogAfter events).table id).schema.fault? = none ↔
        (catalogAfter events).tableName id ≠ "")) ∧
    ((∀ e ∈ events, e.newName? ≠ some "") →
      ∀ id, id.index < (catalogAfter events).tables.size →
        ((catalogAfter events).table id).schema.fault? = none) ∧
    (∀ k, (catalogAfter (events.take k)).Extends (catalogAfter events)) ∧
    (after events).RefusesCleanly := by
  have horderly : (catalogAfter events).Orderly := by
    apply relisted (p := fun _ => True) _ Catalog.orderly_empty hlisted (fun _ _ => trivial)
    intro e c c' _ hstep hc
    exact Catalog.orderly_relists hc hstep
  have hfault : ∀ id, id.index < (catalogAfter events).tables.size →
      (((catalogAfter events).table id).schema.fault? = none ↔
        (catalogAfter events).tableName id ≠ "") := by
    intro id hid
    rw [TableSchema.fault?_eq_none]
    exact and_iff_left (horderly.proper id hid)
  refine ⟨horderly, fun _ _ => horderly.find?_eq_some, hfault, ?_, extends_take events,
    refusesCleanly (valid_after events)⟩
  intro hnames id hid
  have hnamed : "" ∉ (catalogAfter events).names := by
    apply relisted (P := fun c => "" ∉ c.names) _ List.not_mem_nil hlisted hnames
    intro e c c' he hstep hc
    exact Catalog.named_relists hc he hstep
  rw [hfault id hid]
  intro hempty
  exact hnamed (List.mem_map_of_mem (horderly.mem_entries.mpr ⟨hid, hempty⟩))

/-- Two tables are created and one takes over the name of the other, in part by statements and with some
failures. -/
def nameTakenOver : List Event :=
  [.connect {}, .operate (.createTable "t" [⟨"a", .integer, true⟩]),
    .operate (.createTable "t" [⟨"b", .text, true⟩]),
    .execute 0 (.createTable "u" [⟨"b", .text, true⟩]), .execute 0 (.createTable "v" []),
    .execute 0 (.renameTable ⟨0⟩ "u"), .operate (.renameTable "u" "v"),
    .execute 0 (.renameTable ⟨0⟩ "u")]

theorem catalogAfter_orderly_nameTakenOver :
    (catalogAfter nameTakenOver).names = ["u", "v"] ∧
      (catalogAfter nameTakenOver).find? "u" = some ⟨0⟩ ∧
      ((catalogAfter nameTakenOver).table ⟨0⟩).schema.fault? = none ∧
      (catalogAfter (nameTakenOver.take 2)).Extends (catalogAfter nameTakenOver) ∧
      (after nameTakenOver).RefusesCleanly := by
  have hlisted : ∀ schema, .operate (.keepTable schema) ∉ nameTakenOver := by
    intro schema
    simp [nameTakenOver]
  have hnames : ∀ e ∈ nameTakenOver, e.newName? ≠ some "" := by
    simp [nameTakenOver, Event.newName?, TxOp.newName?]
  obtain ⟨-, hfind, -, hfault, hextends, hrefuses⟩ := catalogAfter_orderly hlisted
  have hfound := (hfind "u" ⟨0⟩).mpr ⟨by decide, rfl⟩
  exact ⟨rfl, hfound, hfault hnames ⟨0⟩ (by decide), hextends 2, hrefuses⟩

/-- A table is renamed to nothing, which creating it would have refused. -/
def renamedToNothing : List Event :=
  [.operate (.createTable "t" [⟨"a", .integer, true⟩]), .operate (.renameTable "t" "")]

theorem catalogAfter_renamedToNothing :
    (catalogAfter renamedToNothing).names = [""] ∧
      (catalogAfter renamedToNothing).find? "" = some ⟨0⟩ ∧
      ((catalogAfter renamedToNothing).table ⟨0⟩).schema.fault? = some (.invalidName "") ∧
      TableSchema.create "" [⟨"a", .integer, true⟩] = .error (.invalidName "") :=
  ⟨rfl, rfl, rfl, rfl⟩

end System

end SnapshotSql
