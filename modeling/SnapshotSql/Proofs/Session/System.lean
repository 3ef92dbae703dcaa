import SnapshotSql.Proofs.Session.Works
import SnapshotSql.Proofs.Transaction.Sight
import SnapshotSql.Proofs.Transaction.Stored
/-! # Systems of sessions -/

namespace SnapshotSql

/-- Sessions, by number, that share a database. -/
structure System where
  sessions : List Session := []
  db : Database := {}

/-- Something that happens to a system. -/
inductive Event where
  | connect (options : SessionOptions)
  | execute (i : Nat) (stmt : Statement)
  /-- An operation that is not part of a statement. -/
  | operate (op : TxOp)

namespace System

/-- The transaction belongs to a session. -/
def holds (w : System) (t : TxHandle) : Bool := w.sessions.any fun s => s.held.any (·.1 = t)

/-- Let a session run a statement. There is no answer if there is no such session. -/
def execute (i : Nat) (stmt : Statement) (w : System) :
    Option (Except ExecError QueryResult) × System :=
  match w.sessions[i]? with
  | none => (none, w)
  | some s =>
    let outcome := s.execute stmt w.db
    (some outcome.result, ⟨w.sessions.set i outcome.session, outcome.db⟩)

end System

/-- Let an event happen. The transaction of a session is out of reach for others. -/
def Event.perform : Event → System → System
  | connect options, w => { w with sessions := w.sessions ++ [{ options }] }
  | execute i stmt, w => (w.execute i stmt).2
  | operate op, w => if op.actor?.any w.holds then w else { w with db := (op.perform w.db).2 }

/-- The system after some events, starting without sessions, tables and transactions. -/
def System.after (events : List Event) : System := events.foldl (fun w e => e.perform w) {}

namespace Database

/-- The database is the result of a history. -/
def Reachable (db : Database) : Prop := ∃ h : History, h.final = db

variable {db db' : Database}

theorem reachable_works {p : TxOp → Prop} (h : db.Reachable) (hw : db.Works p db') :
    db'.Reachable := by
  obtain ⟨history, rfl⟩ := h
  obtain ⟨ops, -, rfl⟩ := hw
  exact ⟨history ++ ops, List.foldl_append⟩

theorem sound_of_reachable (h : db.Reachable) : db.Sound := by
  obtain ⟨history, rfl⟩ := h
  exact history.stateAt_length ▸ history.sound_stateAt history.length

theorem formed_of_reachable (h : db.Reachable) : db.catalog.Formed := by
  obtain ⟨history, rfl⟩ := h
  exact history.formed_final

theorem length_values {t : TxHandle} (hf : db.catalog.Formed) (table : TableId) :
    ∀ v ∈ (db.reader t).versions table, v.values.length = (db.catalog.table table).schema.width := by
  intro v hv
  obtain ⟨rid, hversion⟩ := mem_versions.mp hv
  exact hf.width hversion

theorem not_knows_begin (isolation : Isolation) : ¬db.Knows (db.begin isolation).1 := by
  simp [Knows, Database.begin]

theorem catalog_begin (isolation : Isolation) : (db.begin isolation).2.catalog = db.catalog := rfl

theorem registry_begin (isolation : Isolation) : (db.begin isolation).2.registry = db.registry := rfl

theorem not_active_ended {t : TxHandle} {how : Ending} (h : db.Knows t) :
    ¬(db.ended t how).Active t := by
  rintro ⟨-, hnone⟩
  rw [transaction_ended_self h] at hnone
  cases hnone

theorem works_begin {p : TxOp → Prop} {isolation : Isolation} (hp : p (.begin isolation)) :
    db.Works p (db.begin isolation).2 :=
  works_perform (.begin isolation) hp db

theorem works_finish {p : TxOp → Prop} {t : TxHandle} {how : Ending}
    (hp : ∀ op : TxOp, op.actor? = some t → p op) (h : db.Active t) :
    db.Works p (db.ended t how) := by
  have heffect : ∀ op : TxOp, op.ending? = some (t, how) → db.Works p (db.ended t how) := by
    intro op hop
    have hwork : db.Works p (op.perform db).2 :=
      works_perform op (hp op (TxOp.actor?_of_ending? hop)) db
    have hperform : (op.perform db).2 = db.ended t how := by
      rcases TxOp.perform_ending hop db with ⟨_, hrun⟩ | hrun
      · rw [hrun]
      · have hactive : (TxOp.perform op db).1 = true := by
          cases op <;> cases hop <;>
            simp [TxOp.perform, TxOp.actor?, h.1, TxOp.effect, attempt, TxHandle.commit,
              TxHandle.rollback, TxHandle.finish_run h.2]
        rw [hrun] at hactive
        cases hactive
    rwa [hperform] at hwork
  cases how with
  | committed => exact heffect (.commit t) rfl
  | aborted => exact heffect (.rollback t) rfl

end Database

namespace Statement

/-- What a statement may do in all: operations of one transaction, which may begin with it, and laying
out tables if that is what the statement is for. -/
def MayRun (stmt : Statement) (isolation : Isolation) (t : TxHandle) (op : TxOp) : Prop :=
  op.actor? = some t ∨ op = .begin isolation ∨ stmt.arranges = true ∧ op.arranges = true

variable {stmt : Statement} {isolation : Isolation} {t u : TxHandle} {op : TxOp}

theorem mayRun_of_mayDo (h : stmt.MayDo t op) : stmt.MayRun isolation t op := by
  rcases h with ⟨h, _⟩ | h
  · exact .inl h
  · exact .inr (.inr h)

theorem ending?_of_mayRun {e : TxHandle × Ending} (h : stmt.MayRun isolation t op)
    (he : op.ending? = some e) : e.1 = t := by
  rcases h with h | rfl | ⟨_, h⟩
  · rw [TxOp.actor?_of_ending? he] at h
    exact Option.some.inj h
  · cases he
  · rw [TxOp.ending?_of_arranges h] at he
    cases he

theorem actor?_of_mayRun (h : stmt.MayRun isolation t op) (hu : u ≠ t) : op.actor? ≠ some u := by
  rcases h with h | rfl | ⟨_, h⟩
  · rw [h]
    rintro ⟨⟩
    exact hu rfl
  · simp [TxOp.actor?]
  · simp [TxOp.actor?_of_arranges h]

theorem arranges_of_mayRun (h : stmt.MayRun isolation t op) (hstmt : stmt.arranges = false) :
    op.arranges = false := by
  rcases h with h | rfl | ⟨harranges, _⟩
  · cases harranges : op.arranges with
    | false => rfl
    | true =>
      rw [TxOp.actor?_of_arranges harranges] at h
      cases h
  · rfl
  · rw [hstmt] at harranges
    cases harranges

/-- A transaction that begins with a statement has the isolation of the session. -/
theorem isolation_of_mayRun {db db' : Database} (hs : db.Sound)
    (h : db.Works (stmt.MayRun isolation t) db') (hnew : ¬db.Knows u) (hu : db'.Knows u) :
    (db'.transaction u).isolation = isolation := by
  refine (Database.works_keeps (P := fun db' => db'.Sound ∧
    (db'.Knows u → (db'.transaction u).isolation = isolation)) h ?_
      ⟨hs, fun hu => absurd hu hnew⟩).2 hu
  rintro op db' hop ⟨hs, ih⟩
  refine ⟨Database.sound_perform hs op, fun hu => ?_⟩
  rcases TxOp.knows_perform_cases hu with hu | ⟨isolation', rfl, hstate, rfl⟩
  · rw [(Database.evolves_perform hs op).isolation hu, ih hu]
  · rcases hop with h | h | ⟨_, h⟩ <;> cases h
    rw [hstate, Database.transaction_begin_self]

end Statement

namespace Session

variable {s : Session} {db : Database} {stmt : Statement}

def Ready (s : Session) (db : Database) : Prop := ∀ t origin, s.held = some (t, origin) → db.Active t

/-- The transaction in which a statement runs is that of the session or a new one. -/
def Uses (s : Session) (db : Database) (t : TxHandle) : Prop :=
  (∃ origin, s.held = some (t, origin)) ∨ s.held = none ∧ ¬db.Knows t

/-- A statement does what it may in one transaction. It leaves the session with this transaction, or
without any and the transaction over. -/
structure Advances (s : Session) (stmt : Statement) (db : Database) (t : TxHandle) (o : Outcome) :
    Prop where
  works : db.Works (stmt.MayRun s.options.isolation t) o.db
  options : o.session.options = s.options
  ready : o.session.Ready o.db
  held : ∀ u origin, o.session.held = some (u, origin) → u = t
  finished : o.session.held = none → ¬o.db.Active t

private theorem step_refl (h : s.Ready db) (result : Except ExecError QueryResult) :
    ∃ t, s.Uses db t ∧ s.Advances stmt db t ⟨result, s, db⟩ := by
  cases hheld : s.held with
  | none =>
    have hnew : ¬db.Knows ⟨db.transactions.size⟩ := Nat.lt_irrefl _
    refine ⟨⟨db.transactions.size⟩, .inr ⟨hheld, hnew⟩, Database.works_refl _ db, rfl, h, ?_, ?_⟩
    · intro u origin hu
      rw [hheld] at hu
      cases hu
    · exact fun _ hactive => hnew hactive.1
  | some tx =>
    refine ⟨tx.1, .inl ⟨tx.2, hheld⟩, Database.works_refl _ db, rfl, h, ?_, ?_⟩
    · intro u origin hu
      rw [hheld] at hu
      cases hu
      rfl
    · intro hnone
      rw [hheld] at hnone
      cases hnone

private theorem step_finish (h : s.Ready db) (how : Ending) (message : String) :
    ∃ t, s.Uses db t ∧ s.Advances stmt db t (s.finish how message db) := by
  rw [finish]
  cases hheld : s.held with
  | none => exact step_refl h _
  | some tx =>
    obtain ⟨t, origin⟩ := tx
    have hactive := h t origin hheld
    simp only [TxHandle.finish_run hactive.2]
    exact ⟨t, .inl ⟨origin, hheld⟩, Database.works_finish (fun _ => .inl) hactive, rfl, nofun, nofun,
      fun _ => Database.not_active_ended hactive.1⟩

private theorem step_begin (h : s.Ready db) :
    ∃ t, s.Uses db t ∧ s.Advances stmt db t (s.begin db) := by
  rw [begin]
  cases hheld : s.held with
  | none =>
    refine ⟨(db.begin s.options.isolation).1, .inr ⟨hheld, Database.not_knows_begin _⟩,
      Database.works_begin (.inr (.inl rfl)), rfl, ?_, ?_, nofun⟩
    · rintro t origin ⟨⟩
      exact Database.active_begin _
    · rintro u origin ⟨⟩
      rfl
  | some tx =>
    obtain ⟨t, origin⟩ := tx
    have hactive := h t origin hheld
    cases origin with
    | explicit => exact step_refl h _
    | implicit =>
      refine ⟨t, .inl ⟨_, hheld⟩, Database.works_refl _ _, rfl, ?_, ?_, nofun⟩
      · rintro u origin ⟨⟩
        exact hactive
      · rintro u origin ⟨⟩
        rfl

private theorem statementTx_held {t : TxHandle} {origin : TxOrigin} (h : s.held = some (t, origin)) :
    s.statementTx db = ((t, false), s, db) := by
  simp only [statementTx, h]

private theorem statementTx_none {t : TxHandle} {db' : Database} (h : s.held = none)
    (hbegin : db.begin s.options.isolation = (t, db')) : s.statementTx db =
      if s.options.autoCommit then ((t, true), s, db')
      else ((t, false), { s with held := some (t, .implicit) }, db') := by
  simp only [statementTx, h, hbegin]

theorem run_held {stmt : Statement} {op : Operator} {t : TxHandle} {origin : TxOrigin}
    (h : s.held = some (t, origin)) : s.run stmt op db =
      ⟨(drive stmt op t db).answer, s, (drive stmt op t db).db⟩ := by
  unfold run
  generalize drive stmt op = driven
  rw [statementTx_held h]
  rfl

theorem run_opens {stmt : Statement} {op : Operator} {t : TxHandle} {db' : Database}
    (h : s.held = none) (hauto : s.options.autoCommit = false)
    (hbegin : db.begin s.options.isolation = (t, db')) : s.run stmt op db =
      ⟨(drive stmt op t db').answer, { s with held := some (t, .implicit) },
        (drive stmt op t db').db⟩ := by
  unfold run
  generalize drive stmt op = driven
  rw [statementTx_none h hbegin, hauto]
  rfl

def endingOf : Except ExecError QueryResult → Ending
  | .ok _ => .committed
  | .error _ => .aborted

theorem run_commits {stmt : Statement} {op : Operator} {t : TxHandle} {db' : Database}
    (h : s.held = none) (hauto : s.options.autoCommit = true)
    (hbegin : db.begin s.options.isolation = (t, db')) (hactive : (drive stmt op t db').db.Active t) :
    s.run stmt op db = ⟨(drive stmt op t db').answer, s,
      (drive stmt op t db').db.ended t (endingOf (drive stmt op t db').answer)⟩ := by
  unfold run
  generalize drive stmt op = driven at hactive ⊢
  rw [statementTx_none h hbegin, hauto, if_pos rfl]
  dsimp only
  generalize driven t db' = turn at hactive ⊢
  obtain ⟨answer, op', db''⟩ := turn
  dsimp only at hactive ⊢
  rw [if_neg (by decide)]
  cases answer with
  | ok result =>
    dsimp only
    rw [TxHandle.commit, TxHandle.finish_run hactive.2]
    rfl
  | error e =>
    dsimp only
    rw [TxHandle.rollback, TxHandle.finish_run hactive.2]
    rfl

/-- The transaction that the next statement runs in, and the database in which it does. -/
def entered (s : Session) (db : Database) : TxHandle × Database :=
  match s.held with
  | some (t, _) => (t, db)
  | none => db.begin s.options.isolation

theorem catalog_entered (s : Session) (db : Database) :
    (s.entered db).2.catalog = db.catalog := by
  rw [entered]
  cases s.held with
  | none => rfl
  | some tx => rfl

theorem active_entered (h : s.Ready db) : (s.entered db).2.Active (s.entered db).1 := by
  rw [entered]
  cases hheld : s.held with
  | none => exact Database.active_begin _
  | some tx => exact h tx.1 tx.2 hheld

theorem exists_entered (h : s.Ready db) :
    ∃ t db', s.entered db = (t, db') ∧ db'.Active t ∧ db'.catalog = db.catalog :=
  ⟨_, _, rfl, active_entered h, s.catalog_entered db⟩

theorem sound_entered (s : Session) (hs : db.Sound) : (s.entered db).2.Sound := by
  rw [entered]
  cases s.held with
  | none => exact Database.sound_change hs (.begin db s.options.isolation)
  | some tx => exact hs

theorem parts_of_eq {o : Outcome} {answer : Except ExecError QueryResult} {s' : Session}
    {db' : Database} (h : o = ⟨answer, s', db'⟩) : o.result = answer ∧ o.session = s' ∧ o.db = db' := by
  rw [h]
  exact ⟨rfl, rfl, rfl⟩

theorem result_run {stmt : Statement} {op : Operator} {t : TxHandle} {db' : Database}
    (hentered : s.entered db = (t, db')) (hactive : (drive stmt op t db').db.Active t) :
    (s.run stmt op db).result = (drive stmt op t db').answer := by
  rw [entered] at hentered
  cases hheld : s.held with
  | some tx =>
    rw [hheld] at hentered
    cases hentered
    exact (parts_of_eq (run_held hheld)).1
  | none =>
    rw [hheld] at hentered
    cases hauto : s.options.autoCommit with
    | false => exact (parts_of_eq (run_opens hheld hauto hentered)).1
    | true => exact (parts_of_eq (run_commits hheld hauto hentered hactive)).1

theorem active_mayDo {t u : TxHandle} {db' : Database} (h : db.Works (stmt.MayDo t) db')
    (hu : db.Active u) : db'.Active u := by
  refine Database.active_works h ?_ hu
  intro op hop e he
  rw [Statement.ending?_of_mayDo hop] at he
  cases he

theorem bind_mapError_ok {ε ε' α β : Type} (f : ε → ε') (a : α) (g : α → Except ε' β) :
    (Except.ok a : Except ε α).mapError f >>= g = g a := rfl

theorem bind_mapError_error {ε ε' α β : Type} (f : ε → ε') (e : ε) (g : α → Except ε' β) :
    (Except.error e : Except ε α).mapError f >>= g = .error (f e) := rfl

theorem result_select_eq {t : TxHandle} {db' : Database} (query : Select) (h : s.Ready db)
    (hentered : s.entered db = (t, db')) :
    (s.execute (.select query) db).result = (do
      let p ← (Plan.ofSelect db.catalog s.options.planner query).mapError .plan
      let q ← (p.tree db.catalog s.options.policy).mapError .plan
      (drive (.select query) q.operator t db').answer) := by
  have hactive : db'.Active t := by
    have hactive := active_entered h
    rwa [hentered] at hactive
  cases hp : Plan.ofSelect db.catalog s.options.planner query with
  | error e =>
    have hplan : s.plan db.catalog (.select query) = .error (.plan e) := by
      simp only [plan, Plan.ofStatement, hp]
    simp only [execute, hplan]
    rw [bind_mapError_error]
  | ok p =>
    have hplan := plan_select_eq hp
    rw [bind_mapError_ok]
    cases hq : p.tree db.catalog s.options.policy with
    | error e =>
      rw [hq] at hplan
      have hplan : s.plan db.catalog (.select query) = .error (.plan e) := hplan
      simp only [execute, hplan]
      rw [bind_mapError_error]
    | ok q =>
      rw [hq] at hplan
      have hplan : s.plan db.catalog (.select query) = .ok q.operator := hplan
      have hrun := result_run hentered (active_mayDo (works_drive hplan hactive) hactive)
      have hexecute : s.execute (.select query) db = s.run (.select query) q.operator db := by
        simp only [execute, hplan]
      rw [hexecute, hrun, bind_mapError_ok]

/-- A query answers if it is planned and its plan has a query tree whose operators answer. -/
theorem result_select_eq_ok {t : TxHandle} {db' : Database} {result : QueryResult} (query : Select)
    (h : s.Ready db) (hentered : s.entered db = (t, db')) :
    (s.execute (.select query) db).result = .ok result ↔
      ∃ p q, Plan.ofSelect db.catalog s.options.planner query = .ok p ∧
        p.tree db.catalog s.options.policy = .ok q ∧
        (drive (.select query) q.operator t db').answer = .ok result := by
  rw [result_select_eq query h hentered, bind_eq_ok]
  constructor
  · rintro ⟨p, hp, hresult⟩
    obtain ⟨q, hq, hanswer⟩ := bind_eq_ok.mp hresult
    exact ⟨p, q, mapError_eq_ok.mp hp, mapError_eq_ok.mp hq, hanswer⟩
  · rintro ⟨p, q, hp, hq, hanswer⟩
    exact ⟨p, mapError_eq_ok.mpr hp, bind_eq_ok.mpr ⟨q, mapError_eq_ok.mpr hq, hanswer⟩⟩

private theorem step_held {t : TxHandle} {origin : TxOrigin} {turn : Turn QueryResult}
    (hheld : s.held = some (t, origin)) (hactive : db.Active t)
    (hworks : db.Works (stmt.MayDo t) turn.db) :
    s.Advances stmt db t ⟨turn.answer, s, turn.db⟩ where
  works := Database.works_mono (fun _ => Statement.mayRun_of_mayDo) hworks
  options := rfl
  ready u origin' hu := by
    rw [hheld] at hu
    cases hu
    exact active_mayDo hworks hactive
  held u origin' hu := by
    rw [hheld] at hu
    cases hu
    rfl
  finished hnone := by
    rw [hheld] at hnone
    cases hnone

private theorem step_opens {t : TxHandle} {db' : Database} {turn : Turn QueryResult}
    (hbegin : db.Works (stmt.MayRun s.options.isolation t) db') (hactive : db'.Active t)
    (hworks : db'.Works (stmt.MayDo t) turn.db) :
    s.Advances stmt db t ⟨turn.answer, { s with held := some (t, .implicit) }, turn.db⟩ where
  works := Database.works_trans hbegin
    (Database.works_mono (fun _ => Statement.mayRun_of_mayDo) hworks)
  options := rfl
  ready := by
    rintro u origin ⟨⟩
    exact active_mayDo hworks hactive
  held := by
    rintro u origin ⟨⟩
    rfl
  finished := nofun

private theorem step_commits {t : TxHandle} {db' : Database} {turn : Turn QueryResult}
    (hheld : s.held = none) (hbegin : db.Works (stmt.MayRun s.options.isolation t) db') (hactive : db'.Active t)
    (hworks : db'.Works (stmt.MayDo t) turn.db) (how : Ending) :
    s.Advances stmt db t ⟨turn.answer, s, turn.db.ended t how⟩ where
  works := Database.works_trans
    (Database.works_trans hbegin (Database.works_mono (fun _ => Statement.mayRun_of_mayDo) hworks))
    (Database.works_finish (fun _ => .inl) (active_mayDo hworks hactive))
  options := rfl
  ready u origin hu := by
    rw [hheld] at hu
    cases hu
  held u origin hu := by
    rw [hheld] at hu
    cases hu
  finished _ := Database.not_active_ended (active_mayDo hworks hactive).1

private theorem step_run {op : Operator} (h : s.Ready db)
    (hdrive : ∀ t (db' : Database), db'.catalog = db.catalog → db'.Active t →
      db'.Works (stmt.MayDo t) (drive stmt op t db').db) :
    ∃ t, s.Uses db t ∧ s.Advances stmt db t (s.run stmt op db) := by
  cases hheld : s.held with
  | some tx =>
    obtain ⟨t, origin⟩ := tx
    have hactive := h t origin hheld
    rw [run_held hheld]
    exact ⟨t, .inl ⟨origin, hheld⟩, step_held hheld hactive (hdrive t db rfl hactive)⟩
  | none =>
    obtain ⟨t, db', hbegun⟩ : ∃ t db', db.begin s.options.isolation = (t, db') := ⟨_, _, rfl⟩
    have hnew : ¬db.Knows t := by
      have hnew := db.not_knows_begin s.options.isolation
      rwa [hbegun] at hnew
    have hbegin : db.Works (stmt.MayRun s.options.isolation t) db' := by
      have hbegin : db.Works (stmt.MayRun s.options.isolation t) (db.begin s.options.isolation).2 :=
        Database.works_begin (.inr (.inl rfl))
      rwa [hbegun] at hbegin
    have hactive : db'.Active t := by
      have hactive := db.active_begin s.options.isolation
      rwa [hbegun] at hactive
    have hcatalog : db'.catalog = db.catalog := by
      have hcatalog := db.catalog_begin s.options.isolation
      rwa [hbegun] at hcatalog
    have hworks := hdrive t db' hcatalog hactive
    refine ⟨t, .inr ⟨hheld, hnew⟩, ?_⟩
    cases hauto : s.options.autoCommit with
    | false =>
      rw [run_opens hheld hauto hbegun]
      exact step_opens hbegin hactive hworks
    | true =>
      rw [run_commits hheld hauto hbegun (active_mayDo hworks hactive)]
      exact step_commits hheld hbegin hactive hworks _

/-- A statement is work of one transaction, which the session keeps if it keeps any. -/
theorem step_execute (stmt : Statement) (h : s.Ready db) :
    ∃ t, s.Uses db t ∧ s.Advances stmt db t (s.execute stmt db) := by
  have hplanned : ∀ stmt,
      (∀ e, s.plan db.catalog stmt = .error e → s.execute stmt db = ⟨.error e, s, db⟩) →
      (∀ op, s.plan db.catalog stmt = .ok op → s.execute stmt db = s.run stmt op db) →
      ∃ t, s.Uses db t ∧ s.Advances stmt db t (s.execute stmt db) := by
    intro stmt herror hok
    cases hop : s.plan db.catalog stmt with
    | error e =>
      rw [herror e hop]
      exact step_refl h _
    | ok op =>
      rw [hok op hop]
      exact step_run h fun t db' _ ht => works_drive hop ht
  cases stmt with
  | begin => exact step_begin h
  | commit => exact step_finish h .committed "COMMIT"
  | rollback => exact step_finish h .aborted "ROLLBACK"
  | showTables =>
    refine step_run h fun t db' _ _ => ?_
    rw [db_drive_showTables]
    exact Database.works_refl _ _
  | _ =>
    exact hplanned _ (fun e he => by simp only [execute, he]) fun op hop => by
      simp only [execute, hop]

end Session

namespace System

/-- The database has a history, and the sessions hold active transactions, each its own. -/
structure Valid (w : System) : Prop where
  reachable : w.db.Reachable
  ready : ∀ s ∈ w.sessions, s.Ready w.db
  apart : ∀ {i j : Nat} {s r : Session} {t : TxHandle} {o p : TxOrigin}, w.sessions[i]? = some s →
    w.sessions[j]? = some r → s.held = some (t, o) → r.held = some (t, p) → i = j
  isolation : ∀ s ∈ w.sessions, ∀ t origin, s.held = some (t, origin) →
    (w.db.transaction t).isolation = s.options.isolation

variable {w : System}

theorem valid_empty : ({} : System).Valid where
  reachable := ⟨[], rfl⟩
  ready := nofun
  apart h := by simp at h
  isolation := nofun

private theorem valid_connect (h : w.Valid) (options : SessionOptions) :
    ((Event.connect options).perform w).Valid := by
  -- The new session holds nothing, so whichever sessions hold something are old.
  have hold : ∀ {k : Nat} {s : Session} {tx}, (w.sessions ++ [({ options } : Session)])[k]? = some s →
      s.held = some tx → w.sessions[k]? = some s := by
    intro k s tx hk hs
    rw [List.getElem?_append] at hk
    split at hk
    · exact hk
    · rw [List.getElem?_singleton] at hk
      split at hk
      · rw [← Option.some.inj hk] at hs
        cases hs
      · cases hk
  refine ⟨h.reachable, ?_, ?_, ?_⟩
  · intro s hs
    rcases List.mem_append.mp hs with hs | hs
    · exact h.ready s hs
    · rw [List.mem_singleton.mp hs]
      exact nofun
  · intro i j s r t o p hi hj hs hr
    exact h.apart (hold hi hs) (hold hj hr) hs hr
  · intro s hs
    rcases List.mem_append.mp hs with hs | hs
    · exact h.isolation s hs
    · rw [List.mem_singleton.mp hs]
      exact nofun

theorem valid_execute (h : w.Valid) (i : Nat) (stmt : Statement) : (w.execute i stmt).2.Valid := by
  cases hi : w.sessions[i]? with
  | none => simpa only [execute, hi] using h
  | some s =>
    have hready := h.ready s (List.mem_of_getElem? hi)
    obtain ⟨t, huses, hstep⟩ := Session.step_execute stmt hready
    simp only [execute, hi]
    generalize s.execute stmt w.db = outcome at hstep ⊢
    -- No other session holds the transaction that the statement works in.
    have hother : ∀ {j : Nat} {r : Session} {u : TxHandle} {o : TxOrigin}, j ≠ i →
        w.sessions[j]? = some r → r.held = some (u, o) → u ≠ t := by
      rintro j r u o hne hj hr rfl
      rcases huses with ⟨origin, hheld⟩ | ⟨_, hnew⟩
      · exact hne (h.apart hj hi hr hheld)
      · exact hnew (h.ready r (List.mem_of_getElem? hj) u o hr).1
    have hget : ∀ {j : Nat} {r : Session}, (w.sessions.set i outcome.session)[j]? = some r →
        j = i ∧ r = outcome.session ∨ j ≠ i ∧ w.sessions[j]? = some r := by
      intro j r hj
      rw [List.getElem?_set] at hj
      split at hj
      · rename_i hji
        split at hj
        · exact .inl ⟨hji.symm, (Option.some.inj hj).symm⟩
        · cases hj
      · rename_i hji
        exact .inr ⟨fun hji' => hji hji'.symm, hj⟩
    have hsound := Database.sound_of_reachable h.reachable
    obtain ⟨_, hevolves⟩ := Database.evolves_works hsound hstep.works
    refine ⟨Database.reachable_works h.reachable hstep.works, ?_, ?_, ?_⟩
    · intro r hr u o hu
      obtain ⟨j, hj⟩ := List.mem_iff_getElem?.mp hr
      rcases hget hj with ⟨_, rfl⟩ | ⟨hne, hj⟩
      · exact hstep.ready u o hu
      · have hut := hother hne hj hu
        refine Database.active_works hstep.works ?_ (h.ready r (List.mem_of_getElem? hj) u o hu)
        intro op hop e he heu
        exact hut (heu ▸ Statement.ending?_of_mayRun hop he)
    · intro j k r r' u o p hj hk hr hr'
      rcases hget hj with ⟨rfl, rfl⟩ | ⟨hne, hjold⟩ <;> rcases hget hk with ⟨rfl, rfl⟩ | ⟨hne', hkold⟩
      · rfl
      · exact absurd (hstep.held u o hr) (hother hne' hkold hr')
      · exact absurd (hstep.held u p hr') (hother hne hjold hr)
      · exact h.apart hjold hkold hr hr'
    · intro r hr u o hu
      obtain ⟨j, hj⟩ := List.mem_iff_getElem?.mp hr
      rcases hget hj with ⟨_, rfl⟩ | ⟨_, hj⟩
      · rw [hstep.options, hstep.held u o hu]
        rcases huses with ⟨origin, hheld⟩ | ⟨_, hnew⟩
        · have hmem := List.mem_of_getElem? hi
          rw [hevolves.isolation (h.ready s hmem t origin hheld).1, h.isolation s hmem t origin hheld]
        · exact Statement.isolation_of_mayRun hsound hstep.works hnew (hstep.held u o hu ▸ (hstep.ready u o hu).1)
      · have hmem := List.mem_of_getElem? hj
        rw [hevolves.isolation (h.ready r hmem u o hu).1, h.isolation r hmem u o hu]

private theorem valid_operate (h : w.Valid) (op : TxOp) : ((Event.operate op).perform w).Valid := by
  rw [Event.perform]
  split
  · exact h
  · rename_i hfree
    have hworks : w.db.Works (op = ·) (op.perform w.db).2 := Database.works_perform op rfl w.db
    have hsound := Database.sound_of_reachable h.reachable
    refine ⟨Database.reachable_works h.reachable hworks, ?_, h.apart, ?_⟩
    · intro s hs t o ht
      refine Database.active_works hworks ?_ (h.ready s hs t o ht)
      rintro _ rfl e he rfl
      refine hfree ?_
      rw [TxOp.actor?_of_ending? he, Option.any_some, holds, List.any_eq_true]
      exact ⟨s, hs, by simp [ht]⟩
    · intro s hs t o ht
      rw [(Database.evolves_perform hsound op).isolation (h.ready s hs t o ht).1,
        h.isolation s hs t o ht]

theorem valid_perform (h : w.Valid) (e : Event) : (e.perform w).Valid := by
  cases e with
  | connect options => exact valid_connect h options
  | execute i stmt => exact valid_execute h i stmt
  | operate op => exact valid_operate h op

def run (events : List Event) (w : System) : System := events.foldl (fun w e => e.perform w) w

theorem run_keeps {p : Event → Prop} {P : System → Prop}
    (hstep : ∀ e w, p e → w.Valid → P w → P (e.perform w)) {events : List Event}
    (h : ∀ e ∈ events, p e) (hv : w.Valid) (hw : P w) : (w.run events).Valid ∧ P (w.run events) := by
  induction events generalizing w with
  | nil => exact ⟨hv, hw⟩
  | cons e events ih =>
    exact ih (fun e' he' => h e' (List.mem_cons_of_mem e he')) (valid_perform hv e)
      (hstep e w (h e List.mem_cons_self) hv hw)

theorem valid_after (events : List Event) : (after events).Valid :=
  (run_keeps (p := fun _ => True) (P := fun _ => True) (fun _ _ _ _ _ => trivial)
    (fun _ _ => trivial) valid_empty trivial).1

end System

end SnapshotSql
