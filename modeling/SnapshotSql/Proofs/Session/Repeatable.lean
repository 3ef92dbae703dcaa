import SnapshotSql.Proofs.Query.Layout
import SnapshotSql.Proofs.Query.Untouched
import SnapshotSql.Proofs.Session.Reading
import SnapshotSql.Proofs.Transaction.Lasting
/-! # Repeatable reads -/

namespace SnapshotSql

/-! ## Reading the same twice -/

namespace QueryTree

variable {σ : Type} {f : σ → RowView → Step → Except ExecError σ} {R R' : Reader} {q : QueryTree}

theorem readAll_untouched (acc : σ) (h : q.readsTouch R f acc = false) :
    q.readAll R f acc = q.readAll R' f acc := by
  obtain ⟨htouches, hread⟩ := Bool.or_eq_false_iff.mp h
  exact (readTouches_opensSame ((stream_untouched R R' q).2 htouches) acc).2 hread

theorem readAll_shown (acc : σ) (hf : ∀ acc v step, f acc (RowView.renumber id v) step = f acc v step)
    (h : ∀ s ∈ q.scans, R.shown id s.access s.table = R'.shown id s.access s.table) :
    q.readAll R f acc = q.readAll R' f acc := by
  have hfold : ∀ s : Stream, (s.renumber id).fold f acc = s.fold f acc := by
    intro s
    have hstep : ∀ acc v step, f (id acc) (RowView.renumber id v) step = (f acc v step).map id :=
      fun acc v step => (hf acc v step).trans (by cases f acc v step <;> rfl)
    have hexact : (s.renumber id).fold f acc = (s.fold f acc).map id :=
      (fold_renumber_exact id hstep s acc).1
    exact hexact.trans (by cases s.fold f acc <;> rfl)
  have hread : ∀ x : Except ExecError Stream,
      (x.map (Stream.renumber id) >>= fun s => s.fold f acc) = x >>= fun s => s.fold f acc := by
    intro x
    cases x with
    | error e => rfl
    | ok s => exact hfold s
  rw [readAll, readAll, ← hread (q.stream R), ← hread (q.stream R'), (stream_renumber q h).1]

end QueryTree

namespace RowView

theorem copy_renumber_id (v : RowView) : (v.renumber id).copy = v.copy := by
  have hrow : Row.renumber id = id := by
    funext r
    rw [Row.renumber, Option.map_id]
    rfl
  rw [copy_renumber, hrow]
  cases v.copy <;> rfl

end RowView

namespace Session

variable {s : Session} {db db' : Database} {t : TxHandle} {q : QueryTree}

private theorem collectValues_renumber (stmt : Statement) (db : Database) (rows : Array (List Value))
    (v : RowView) (step : Step) : collectValues stmt db rows (v.renumber id) step =
      collectValues stmt db rows v step := by
  simp only [collectValues, RowView.copy_renumber_id]

theorem collectValues_congr (stmt : Statement) (h : db.catalog.SameLayout db'.catalog) :
    collectValues stmt db = collectValues stmt db' := by
  funext rows v step
  simp only [collectValues, Statement.tableNames_congr h stmt]

theorem plan_congr {c c' : Catalog} (h : c.SameLayout c') (stmt : Statement) :
    s.plan c stmt = s.plan c' stmt := by
  rw [plan, plan, Plan.ofStatement_congr h]
  simp only [Plan.lower_congr h]

end Session

/-! ## What others leave alone -/

namespace Database

variable {db db' db'' : Database} {t : TxHandle} {p : TxOp → Prop}

theorem pinned_of_evolves {db₀ : Database} (h : Pinned t db₀ db) (h' : db.Evolves db') :
    Pinned t db₀ db' :=
  ⟨evolves_trans h.evolves h', h'.started h.started⟩

/-- From one database to another, the tables are laid out alike, and the transaction comes to the same
rows if its snapshot is pinned. -/
structure Spares (t : TxHandle) (db db' : Database) : Prop where
  evolves : db.Evolves db'
  layout : db.catalog.SameLayout db'.catalog
  rows : ∀ db₀, Pinned t db₀ db →
    db'.rowsFor (db₀.countedFor (db₀.start t).1) = db.rowsFor (db₀.countedFor (db₀.start t).1)

theorem spares_of_catalog (h : db.Evolves db') (hcatalog : db'.catalog = db.catalog) :
    Spares t db db' where
  evolves := h
  layout := by
    rw [hcatalog]
    exact .refl _
  rows _ _ := rowsFor_congr fun table => by rw [hcatalog]

theorem spares_trans (h : Spares t db db') (h' : Spares t db' db'') : Spares t db db'' where
  evolves := evolves_trans h.evolves h'.evolves
  layout := h.layout.trans h'.layout
  rows db₀ hp := (h'.rows db₀ (pinned_of_evolves hp h.evolves)).trans (h.rows db₀ hp)

theorem spares_works (hs : db.Sound) (ht : db.Active t) (h : db.Works p db')
    (hp : ∀ op, p op → op.actor? ≠ some t ∧ op.arranges = false) : Spares t db db' := by
  refine (works_keeps (P := fun db' => db'.Sound ∧ db'.Active t ∧ Spares t db db') h ?_
    ⟨hs, ht, spares_of_catalog (evolves_refl db) rfl⟩).2.2
  rintro op db₁ hop ⟨hs, ht, hspares⟩
  obtain ⟨hactor, harranges⟩ := hp op hop
  have hevolves := evolves_perform hs op
  refine ⟨sound_perform hs op, ?_, spares_trans hspares ⟨hevolves, ?_, ?_⟩⟩
  · obtain ⟨n, hn⟩ := TxOp.transaction_perform_of_ne hactor ht.1
    exact ⟨hevolves.knows ht.1, by rw [hn, ht.2]⟩
  · exact fun id => (TxOp.schema_perform harranges db₁ id).symm
  · exact fun db₀ hp => rowsFor_perform hs hp.evolves ht (number?_of_pinned hp) hactor

end Database

/-- The event writes nothing in the transaction of session `i`, does not end it, and lays out no
table. -/
def Event.spares (i : Nat) : Event → Bool
  | connect _ => true
  | execute _ .begin => true
  | execute j stmt => if j = i then stmt.reads else !stmt.arranges
  | operate op => !op.arranges

namespace System

variable {i : Nat} {options : SessionOptions} {t : TxHandle} {db : Database} {w : System}

/-- Since some database, session `i` has held a transaction that was spared. -/
structure Spares (i : Nat) (options : SessionOptions) (t : TxHandle) (db : Database) (w : System) :
    Prop where
  session : ∃ origin, w.sessions[i]? = some ⟨options, some (t, origin)⟩
  db : Database.Spares t db w.db

/-- Whatever happens to other sessions does not matter if a session keeps its transaction. -/
private theorem spares_set {s' : Session} {db' : Database} {origin : TxOrigin}
    (h : w.Spares i options t db) (hs' : s' = ⟨options, some (t, origin)⟩)
    (hdb : Database.Spares t w.db db') : Spares i options t db ⟨w.sessions.set i s', db'⟩ := by
  obtain ⟨⟨_, hi⟩, hspares⟩ := h
  refine ⟨⟨origin, ?_⟩, Database.spares_trans hspares hdb⟩
  rw [List.getElem?_set_self (List.getElem?_eq_some_iff.mp hi).1, hs']

private theorem spares_begin (h : w.Spares i options t db) :
    (w.execute i .begin).2.Spares i options t db := by
  obtain ⟨origin, hi⟩ := h.session
  have hsame := Database.spares_of_catalog (t := t) (Database.evolves_refl w.db) rfl
  simp only [execute, hi]
  cases origin with
  | explicit => exact spares_set h rfl hsame
  | implicit => exact spares_set h rfl hsame

private theorem spares_reading {stmt : Statement} (hv : w.Valid) (h : w.Spares i options t db)
    (hstmt : stmt.reads = true) : (w.execute i stmt).2.Spares i options t db := by
  obtain ⟨origin, hi⟩ := h.session
  obtain ⟨_, _, hstep⟩ :=
    Session.step_execute stmt (hv.ready _ (List.mem_of_getElem? hi))
  have hevolves := (Database.evolves_works (Database.sound_of_reachable hv.reachable) hstep.works).2
  simp only [execute, hi]
  exact spares_set h (Session.session_execute hstmt rfl)
    (Database.spares_of_catalog hevolves (Session.catalog_execute hstmt))

private theorem spares_other {j : Nat} {stmt : Statement} (hv : w.Valid) (h : w.Spares i options t db)
    (hj : j ≠ i) (hstmt : stmt.arranges = false) : (w.execute j stmt).2.Spares i options t db := by
  cases hr : w.sessions[j]? with
  | none => simpa only [execute, hr] using h
  | some r =>
    obtain ⟨⟨origin, hi⟩, hspares⟩ := h
    have hactive := hv.ready _ (List.mem_of_getElem? hi) t origin rfl
    obtain ⟨u, huses, hstep⟩ := Session.step_execute stmt (hv.ready r (List.mem_of_getElem? hr))
    have hne : t ≠ u := by
      rintro rfl
      rcases huses with ⟨_, hheld⟩ | ⟨_, hnew⟩
      · exact hj (hv.apart hr hi hheld rfl)
      · exact hnew hactive.1
    simp only [execute, hr]
    refine ⟨⟨origin, ?_⟩, Database.spares_trans hspares ?_⟩
    · rw [List.getElem?_set_ne hj, hi]
    · refine Database.spares_works (Database.sound_of_reachable hv.reachable) hactive hstep.works ?_
      intro op hop
      refine ⟨Statement.actor?_of_mayRun hop hne, ?_⟩
      exact Statement.arranges_of_mayRun hop hstmt

private theorem spares_operate {op : TxOp} (hv : w.Valid) (h : w.Spares i options t db)
    (hop : op.arranges = false) : ((Event.operate op).perform w).Spares i options t db := by
  rw [Event.perform]
  split
  · exact h
  · rename_i hfree
    obtain ⟨⟨origin, hi⟩, hspares⟩ := h
    have hmem := List.mem_of_getElem? hi
    have hne : op.actor? ≠ some t := by
      intro hactor
      refine hfree ?_
      rw [hactor, Option.any_some, holds, List.any_eq_true]
      exact ⟨_, hmem, by simp⟩
    refine ⟨⟨origin, hi⟩, Database.spares_trans hspares ?_⟩
    exact Database.spares_works (Database.sound_of_reachable hv.reachable)
      (hv.ready _ hmem t origin rfl) (Database.works_perform (p := (· = op)) op rfl w.db)
      (by rintro _ rfl; exact ⟨hne, hop⟩)

private theorem spares_perform {e : Event} (hv : w.Valid) (h : w.Spares i options t db)
    (he : e.spares i = true) : (e.perform w).Spares i options t db := by
  cases e with
  | connect options' =>
    obtain ⟨⟨origin, hi⟩, hspares⟩ := h
    refine ⟨⟨origin, ?_⟩, hspares⟩
    rw [Event.perform, List.getElem?_append_left (List.getElem?_eq_some_iff.mp hi).1, hi]
  | execute j stmt =>
    by_cases hj : j = i
    · subst hj
      have hstmt : stmt = .begin ∨ stmt.reads = true := by
        cases stmt <;> simp_all [Event.spares]
      rcases hstmt with rfl | hstmt
      · exact spares_begin h
      · exact spares_reading hv h hstmt
    · have hstmt : stmt.arranges = false := by
        cases stmt <;> simp_all [Event.spares, Statement.arranges]
      exact spares_other hv h hj hstmt
  | operate op => exact spares_operate hv h (by simpa [Event.spares] using he)

theorem result_execute {s : Session} (hi : w.sessions[i]? = some s) (stmt : Statement) :
    (w.execute i stmt).1 = some (s.execute stmt w.db).result := by
  simp only [execute, hi]

theorem db_execute {s : Session} (hi : w.sessions[i]? = some s) (stmt : Statement) :
    (w.execute i stmt).2.db = (s.execute stmt w.db).db := by
  simp only [execute, hi]

/-- From the first time a query is run to the next, the transaction of the session is spared. -/
private theorem spares_run (query : Select) {between : List Event} {origin : TxOrigin} (hv : w.Valid)
    (hi : w.sessions[i]? = some ⟨options, some (t, origin)⟩)
    (hbetween : ∀ e ∈ between, e.spares i = true) :
    let w₁ := (w.execute i (.select query)).2
    (w₁.run between).Valid ∧ (w₁.run between).Spares i options t w₁.db := by
  have hv₁ := valid_execute hv i (.select query)
  refine run_keeps (fun e w he hv hw => spares_perform hv hw he) hbetween hv₁ ⟨⟨origin, ?_⟩,
    Database.spares_of_catalog (Database.evolves_refl _) rfl⟩
  simp only [execute, hi]
  rw [List.getElem?_set_self (List.getElem?_eq_some_iff.mp hi).1, Session.session_execute rfl rfl]

end System

namespace Session

variable {s : Session} {db db' : Database} {t : TxHandle} {origin : TxOrigin} {query : Select}
  {q : QueryTree}

private theorem execute_query (hs : s.held = some (t, origin)) (ht : db.Active t) (hq : q.Fresh)
    (hplan : s.plan db.catalog (.select query) = .ok q.operator) :
    (s.execute (.select query) db).result =
        (q.readAll (db.reader t) (collectValues (.select query) db) #[]).map (fun rows =>
          .rows { columns := columnNames (.select query), rows := rows.toList }) ∧
      (s.execute (.select query) db).db =
        db.phase t (q.readsTouch (db.reader t) (collectValues (.select query) db) #[]) := by
  have hexecute : s.execute (.select query) db = s.run (.select query) q.operator db := by
    simp only [execute, hplan]
  obtain ⟨hanswer, hdb⟩ := drive_select_eq query hq ht
  obtain ⟨hresult, _, hdone⟩ := parts_of_eq (hexecute.trans (run_held hs))
  exact ⟨hresult.trans hanswer, hdone.trans hdb⟩

private theorem shown_again (hr : db.Reachable) (hs' : db'.Sound) (ht : db.Active t)
    (hpins : (db.transaction t).isolation.pinsSnapshot = true) (h : Database.Spares t (db.begun t) db')
    (table : TableId) : (db.reader t).shown id .read table = (db'.reader t).shown id .read table := by
  obtain ⟨history, hfinal⟩ := Database.reachable_works hr (Database.works_phase ht true)
  change history.final = db.begun t at hfinal
  have hstarted := Database.started_begun ht.1
  have hs : (db.begun t).Sound := Database.sound_of_reachable ⟨history, hfinal⟩
  obtain ⟨db₀, hpinned⟩ := history.exists_pinned (t := t) (by rw [hfinal, hstarted])
  rw [hfinal] at hpinned
  have hbegun : ((db.begun t).transaction t).isolation = (db.transaction t).isolation := by
    rw [Database.transaction_begun_self ht.1]
  have hshown : (db.reader t).shown id .read table = ((db.begun t).reader t).shown id .read table := by
    simp only [Reader.shown, Reader.seen, Database.see_begun_self ht.1]
    simp only [Database.reader, Database.begun_catalog]
  rw [hshown, Database.shown_of_pinned hs hpinned (by rw [hbegun, hpins]),
    Database.shown_of_pinned hs' (Database.pinned_of_evolves hpinned h.evolves)
      (by rw [h.evolves.isolation (Database.knows_begun.mpr ht.1), hbegun, hpins]), h.rows db₀ hpinned]

private theorem readAll_again {σ : Type} {f : σ → RowView → Step → Except ExecError σ} (acc : σ)
    (hf : ∀ acc v step, f acc (RowView.renumber id v) step = f acc v step)
    (hr : db.Reachable) (hs' : db'.Sound) (ht : db.Active t)
    (hpins : (db.transaction t).isolation.pinsSnapshot = true) (hread : q.ReadOnly)
    (h : Database.Spares t (db.phase t (q.readsTouch (db.reader t) f acc)) db') :
    q.readAll (db.reader t) f acc = q.readAll (db'.reader t) f acc := by
  cases htouch : q.readsTouch (db.reader t) f acc with
  | false => exact QueryTree.readAll_untouched acc htouch
  | true =>
    rw [htouch] at h
    refine QueryTree.readAll_shown acc hf fun scan hscan => ?_
    rw [(QueryTree.readOnly_iff q).mp hread scan hscan]
    exact shown_again hr hs' ht hpins h scan.table

private theorem result_again {s' : Session} {origin' : TxOrigin} (hs : s.held = some (t, origin))
    (hs' : s'.held = some (t, origin')) (hoptions : s'.options = s.options)
    (hr : db.Reachable) (ht : db.Active t) (hr' : db'.Reachable) (ht' : db'.Active t)
    (hpins : (db.transaction t).isolation.pinsSnapshot = true)
    (h : Database.Spares t (s.execute (.select query) db).db db') :
    (s'.execute (.select query) db').result = (s.execute (.select query) db).result := by
  have hlayout : db.catalog.SameLayout db'.catalog := by
    have hcatalog : (s.execute (.select query) db).db.catalog = db.catalog := catalog_execute rfl
    rw [← hcatalog]
    exact h.layout
  have hplan : s'.plan db'.catalog (.select query) = s.plan db.catalog (.select query) := by
    rw [plan_congr hlayout.symm, plan, plan, hoptions]
  cases hop : s.plan db.catalog (.select query) with
  | error e =>
    rw [hop] at hplan
    simp only [execute, hop, hplan]
  | ok op =>
    rw [hop] at hplan
    obtain ⟨q, rfl, hq, hread⟩ := plan_select hop
    obtain ⟨hresult, hdb⟩ := execute_query hs ht hq hop
    rw [hdb] at h
    rw [hresult, (execute_query hs' ht' hq hplan).1, ← collectValues_congr _ hlayout,
      readAll_again #[] (collectValues_renumber _ _) hr (Database.sound_of_reachable hr') ht hpins
        hread h]

end Session

namespace System

/-- A query that a session runs twice in one transaction under repeatable read has the same result
both times, the same rows in the same order or the same error. In between, other sessions run any
statements but those that create or rename tables, and the session itself only reads. -/
theorem execute_select_again (events between : List Event) (i : Nat) (options : SessionOptions)
    (t : TxHandle) (origin : TxOrigin) (query : Select)
    (hi : (after events).sessions[i]? = some ⟨options, some (t, origin)⟩)
    (hlevel : options.isolation = .repeatableRead) (hbetween : ∀ e ∈ between, e.spares i = true) :
    let first := (after events).execute i (.select query)
    ∃ result, first.1 = some result ∧
      ((first.2.run between).execute i (.select query)).1 = some result := by
  have hv := valid_after events
  generalize after events = w at hi hv ⊢
  obtain ⟨hv₂, ⟨origin', hi₂⟩, hspares⟩ := spares_run query hv hi hbetween
  have hmem := List.mem_of_getElem? hi
  have hpins : (w.db.transaction t).isolation.pinsSnapshot = true := by
    rw [hv.isolation _ hmem t origin rfl, hlevel]
    rfl
  have hfirst := result_execute hi (.select query)
  have hagain := result_execute hi₂ (.select query)
  refine ⟨_, hfirst, hagain.trans (congrArg some ?_)⟩
  refine Session.result_again rfl rfl rfl hv.reachable
    (hv.ready _ hmem t origin rfl) hv₂.reachable (hv₂.ready _ (List.mem_of_getElem? hi₂) t origin' rfl)
    hpins ?_
  rwa [db_execute hi] at hspares

def besideAnother : List Event :=
  [.connect { isolation := .repeatableRead }, .connect {},
    .operate (.createTable "t" [⟨"a", .integer, true⟩]), .execute 1 (.insert ⟨0⟩ [[.integer 1]]),
    .execute 0 .begin]

/-- What the other session commits is not read. -/
theorem execute_select_again_besideAnother :
    let options : SessionOptions := { isolation := .repeatableRead }
    let between : List Event :=
      [.execute 1 (.insert ⟨0⟩ [[.integer 2]]), .execute 1 (.delete ⟨0⟩ none)]
    let first := (after besideAnother).execute 0 Session.allRows
    (after besideAnother).sessions[0]? = some ⟨options, some (⟨1⟩, .explicit)⟩ ∧
      options.isolation = .repeatableRead ∧ (∀ e ∈ between, e.spares 0 = true) ∧
      ∃ result, first.1 = some result ∧
        ((first.2.run between).execute 0 Session.allRows).1 = some result :=
  have hi : (after besideAnother).sessions[0]? =
    some ⟨{ isolation := .repeatableRead }, some (⟨1⟩, .explicit)⟩ := by decide +kernel
  ⟨hi, rfl, by decide, execute_select_again _ _ _ _ _ _ _ hi rfl (by decide)⟩

end System

end SnapshotSql
