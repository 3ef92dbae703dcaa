import SnapshotSql.Proofs.Session.Drive
import SnapshotSql.Proofs.Session.Planned
import SnapshotSql.Proofs.Transaction.History
/-! # Statements as operations -/

namespace SnapshotSql

/-- The operation is one of `t` that does not end it. -/
def TxOp.Within (t : TxHandle) (op : TxOp) : Prop := op.actor? = some t ∧ op.ending? = none

namespace Statement

def arranges : Statement → Bool
  | createTable .. | renameTable .. => true
  | _ => false

/-- What a statement may do while it is driven in a transaction: operations of the transaction that do
not end it, and laying out tables if that is what the statement is for. -/
def MayDo (stmt : Statement) (t : TxHandle) (op : TxOp) : Prop :=
  op.Within t ∨ stmt.arranges = true ∧ op.arranges = true

theorem ending?_of_mayDo {stmt : Statement} {t : TxHandle} {op : TxOp} (h : stmt.MayDo t op) :
    op.ending? = none := by
  rcases h with ⟨_, h⟩ | ⟨_, h⟩
  · exact h
  · exact TxOp.ending?_of_arranges h

end Statement

def Database.Works (p : TxOp → Prop) (db db' : Database) : Prop :=
  ∃ ops : List TxOp, (∀ op ∈ ops, p op) ∧ ops.foldl (fun db op => (op.perform db).2) db = db'

/-- The action only performs operations of `t`, and does not end it. -/
def Acts {ε α : Type} (t : TxHandle) (a : Action ε α) : Prop :=
  ∀ db : Database, db.Knows t → db.Works (TxOp.Within t) (db.attempt a).2

namespace Database

variable {t u : TxHandle} {p q : TxOp → Prop} {db db' db'' : Database}

theorem works_refl (p : TxOp → Prop) (db : Database) : db.Works p db := ⟨[], by simp, rfl⟩

theorem works_trans (h : db.Works p db') (h' : db'.Works p db'') : db.Works p db'' := by
  obtain ⟨ops, hops, rfl⟩ := h
  obtain ⟨ops', hops', rfl⟩ := h'
  refine ⟨ops ++ ops', ?_, List.foldl_append⟩
  intro op hop
  rcases List.mem_append.mp hop with hop | hop
  · exact hops op hop
  · exact hops' op hop

theorem works_mono (hpq : ∀ op, p op → q op) (h : db.Works p db') : db.Works q db' := by
  obtain ⟨ops, hops, rfl⟩ := h
  exact ⟨ops, fun op hop => hpq op (hops op hop), rfl⟩

theorem works_keeps {P : Database → Prop} (h : db.Works p db')
    (hstep : ∀ op db, p op → P db → P (op.perform db).2) (hdb : P db) : P db' := by
  obtain ⟨ops, hops, rfl⟩ := h
  induction ops generalizing db with
  | nil => exact hdb
  | cons op ops ih =>
    exact ih (hstep op db (hops op List.mem_cons_self) hdb)
      fun op' hop' => hops op' (List.mem_cons_of_mem op hop')

theorem works_perform (op : TxOp) (h : p op) (db : Database) : db.Works p (op.perform db).2 := by
  refine ⟨[op], ?_, rfl⟩
  intro op' hop'
  rw [List.mem_singleton.mp hop']
  exact h

theorem works_effect (op : TxOp) (h : op.Within t) (hk : db.Knows t) :
    db.Works (TxOp.Within t) (op.effect db).2 := by
  have hperform : op.perform db = op.effect db := by
    simp only [TxOp.perform, h.1, hk, if_true]
  rw [← hperform]
  exact works_perform op h db

theorem works_phase (h : db.Active t) (started : Bool) :
    db.Works (TxOp.Within t) (db.phase t started) := by
  cases started with
  | false => exact works_refl _ db
  | true =>
    have hstart : (TxOp.effect (.start t) db).2 = db.begun t := by
      rw [TxOp.effect, attempt, TxHandle.start_run h]
    show db.Works _ (db.begun t)
    rw [← hstart]
    exact works_effect (.start t) ⟨rfl, rfl⟩ h.1

theorem evolves_works (hs : db.Sound) (h : db.Works p db') : db'.Sound ∧ db.Evolves db' :=
  works_keeps (P := fun db' => db'.Sound ∧ db.Evolves db') h
    (fun op _ _ h => ⟨sound_perform h.1 op, evolves_trans h.2 (evolves_perform h.1 op)⟩)
    ⟨hs, evolves_refl db⟩

private theorem knows_perform (op : TxOp) (h : db.Knows u) : (op.perform db).2.Knows u := by
  cases he : op.ending? with
  | none => exact (evolves_changes (TxOp.changes_perform he db)).knows h
  | some e =>
    obtain ⟨t, how⟩ := e
    rcases TxOp.perform_ending he db with ⟨_, hrun⟩ | hrun
    · rw [hrun]
      exact knows_ended.mpr h
    · rwa [hrun]

theorem knows_works (h : db.Works p db') (hu : db.Knows u) : db'.Knows u :=
  works_keeps (P := fun db => db.Knows u) h (fun op _ _ => knows_perform op) hu

private theorem ending_change (h : Change db db') (u : TxHandle) :
    (db'.transaction u).ending = (db.transaction u).ending := by
  cases h with
  | begin isolation => exact ending_begin isolation
  | layout => rfl
  | start ht => exact ending_begun ht.1
  | write _ _ hw =>
    obtain ⟨n, hn⟩ := transaction_write hw u
    rw [hn]

private theorem ending_changes (h : Changes db db') (u : TxHandle) :
    (db'.transaction u).ending = (db.transaction u).ending := by
  induction h with
  | refl => rfl
  | tail _ hstep ih => rw [ending_change hstep u, ih]

private theorem active_perform {op : TxOp} (h : ∀ e, op.ending? = some e → e.1 ≠ u)
    (hu : db.Active u) : (op.perform db).2.Active u := by
  refine ⟨knows_perform op hu.1, ?_⟩
  cases he : op.ending? with
  | none => rw [ending_changes (TxOp.changes_perform he db) u, hu.2]
  | some e =>
    obtain ⟨t, how⟩ := e
    rcases TxOp.perform_ending he db with ⟨_, hrun⟩ | hrun
    · rw [hrun, transaction_ended_of_ne (h _ he).symm, hu.2]
    · rw [hrun, hu.2]

theorem active_works (h : db.Works p db') (hp : ∀ op, p op → ∀ e, op.ending? = some e → e.1 ≠ u)
    (hu : db.Active u) : db'.Active u :=
  works_keeps (P := fun db => db.Active u) h (fun op _ hop => active_perform (hp op hop)) hu

end Database

section

variable {ε α β : Type} {t : TxHandle}

private theorem acts_pure (a : α) : Acts t (pure a : Action ε α) :=
  fun db _ => Database.works_refl _ db

private theorem acts_bind {a : Action ε α} {f : α → Action ε β} (ha : Acts t a)
    (hf : ∀ x, Acts t (f x)) : Acts t (a >>= f) := by
  intro db hk
  have hwork := ha db hk
  rw [Database.attempt] at hwork
  rw [Database.attempt, EStateM.run_bind]
  cases hrun : a.run db with
  | ok x db' =>
    rw [hrun] at hwork
    have hrest := hf x db' (Database.knows_works hwork hk)
    rw [Database.attempt] at hrest
    exact Database.works_trans hwork hrest
  | error e db' =>
    rw [hrun] at hwork
    exact hwork

theorem acts_insertRows (t : TxHandle) (table : TableId) (records : List (List Value)) :
    Acts t (Operator.insertRows t table records) := by
  induction records with
  | nil => exact acts_pure ()
  | cons values records ih =>
    exact acts_bind (fun _ hk =>
      Database.works_effect (.insertRow t table values) ⟨rfl, rfl⟩ hk) fun _ => ih

theorem acts_deleteRows (t : TxHandle) (table : TableId) (rids : List RowId) :
    Acts t (Operator.deleteRows t table rids) := by
  induction rids with
  | nil => exact acts_pure ()
  | cons rid rids ih =>
    exact acts_bind (fun _ hk =>
      Database.works_effect (.deleteRow t table rid) ⟨rfl, rfl⟩ hk) fun _ => ih

theorem acts_updateRows (t : TxHandle) (table : TableId) (changes : List (RowId × List Value)) :
    Acts t (Operator.updateRows t table changes) := by
  induction changes with
  | nil => exact acts_pure ()
  | cons change changes ih =>
    exact acts_bind (fun _ hk =>
      Database.works_effect (.updateRow t table change.1 change.2) ⟨rfl, rfl⟩ hk) fun _ => ih

end

namespace Session

variable {t : TxHandle} {db : Database} {s : Session} {op : Operator}

private theorem works_modifying {count : Nat} {a : Action TxError Unit} (ha : Acts t a)
    (hk : db.Knows t) : db.Works (TxOp.Within t) (modifying count a db).2 := by
  have hwork := ha db hk
  rw [Database.attempt] at hwork
  rw [modifying]
  cases hrun : a.run db with
  | ok _ db' =>
    rw [hrun] at hwork
    exact hwork
  | error e db' =>
    rw [hrun] at hwork
    exact hwork

private theorem works_readThen {σ : Type} {q : QueryTree}
    {f : σ → RowView → Step → Except ExecError σ} {acc : σ}
    {go : σ → Database → Except ExecError QueryResult × Database} (h : db.Active t)
    (hgo : ∀ a (db' : Database), db'.Knows t → db'.Works (TxOp.Within t) (go a db').2) :
    db.Works (TxOp.Within t) (q.readThen t db f acc go).2 := by
  have hphase := db.works_phase h (q.readsTouch (db.reader t) f acc)
  rw [QueryTree.readThen]
  cases q.readAll (db.reader t) f acc with
  | error e => exact hphase
  | ok a => exact Database.works_trans hphase (hgo a _ (Database.knows_works hphase h.1))

private theorem foldRows_keeps {σ : Type} {f : Database → σ → RowView → Step → Except ExecError σ}
    {next : Operator → Database → Turn Step} (kind : Operator → Prop)
    (hnext : ∀ op db, kind op → kind (next op db).op ∧ (next op db).db = db) (n : Nat) (acc : σ)
    (hop : kind op) : (Operator.foldRows next f n acc op db).db = db := by
  induction n generalizing acc op with
  | zero => rfl
  | succ n ih =>
    obtain ⟨hkind, hdb⟩ := hnext op db hop
    rw [Operator.foldRows]
    simp only [hdb]
    cases (next op db).answer with
    | error e => rfl
    | ok step =>
      cases step with
      | done => rfl
      | row =>
        simp only
        cases (next op db).op.current.bind fun view => f db acc view .row with
        | error e => rfl
        | ok acc' => exact ih acc' hkind
      | contested =>
        simp only
        cases (next op db).op.current.bind fun view => f db acc view .contested with
        | error e => rfl
        | ok acc' => exact ih acc' hkind

private theorem db_rowsResult {stmt : Statement} (turn : Turn (Array (List Value))) :
    (rowsResult stmt turn).db = turn.db := by
  rw [rowsResult]
  cases turn.answer <;> rfl

private theorem db_conclude (kind : Operator → Prop) {stmt : Statement} {turn : Turn Unit}
    (hstmt : ∀ op db, ∃ rounds, collect stmt op db = rowsResult stmt
      (Operator.foldRows (Operator.next .empty) (collectValues stmt) rounds #[] op db))
    (hnext : ∀ n op db, kind op →
      kind (op.nextIn (n + 1) .empty db).op ∧ (op.nextIn (n + 1) .empty db).db = db)
    (hok : turn.answer = .ok ()) (hop : kind turn.op) : (conclude stmt turn).db = turn.db := by
  obtain ⟨rounds, hcollect⟩ := hstmt turn.op turn.db
  have hconclude : (conclude stmt turn).db = (collect stmt turn.op turn.db).db :=
    congrArg Prod.snd (conclude_ok hok)
  rw [hconclude, hcollect, db_rowsResult]
  refine foldRows_keeps kind (fun op db hop => ?_) rounds #[] hop
  obtain ⟨n, hn⟩ := steps_succ db.catalog op
  rw [Operator.next, hn]
  exact hnext n op db hop

theorem db_drive_showTables (strings : StringList) :
    (drive .showTables (.stringList strings) t db).db = db := by
  obtain ⟨n, hn⟩ := steps_succ db.catalog (.stringList strings)
  rw [drive, Operator.openUnder, hn, Operator.openIn]
  refine db_conclude (fun op => ∃ s, op = .stringList s) (fun _ _ => ⟨_, by simp only [collect]; rfl⟩) ?_ rfl
    ⟨_, rfl⟩
  rintro n _ db ⟨s, rfl⟩
  exact ⟨⟨_, rfl⟩, rfl⟩

/-- Driving a CREATE TABLE creates the table, and answers if that is possible. -/
theorem drive_createTable (name : String) (columns : List Column) :
    (drive (.createTable name columns) (.createTable name columns) t db).answer.isOk =
        (TxOp.perform (.createTable name columns) db).1 ∧
      (drive (.createTable name columns) (.createTable name columns) t db).db =
        (TxOp.perform (.createTable name columns) db).2 := by
  obtain ⟨n, hn⟩ := steps_succ db.catalog (.createTable name columns)
  simp only [drive, Operator.openUnder, hn, Operator.openIn, TxOp.perform, TxOp.actor?, TxOp.effect]
  cases db.catalog.create name columns with
  | error e => exact ⟨rfl, rfl⟩
  | ok r => exact ⟨rfl, rfl⟩

/-- Driving a RENAME TABLE renames the table from the name that it has by then. -/
theorem drive_renameTable (table : TableId) (newName : String) :
    (drive (.renameTable table newName) (.rename table newName) t db).answer.isOk =
        (TxOp.perform (.renameTable (db.catalog.tableName table) newName) db).1 ∧
      (drive (.renameTable table newName) (.rename table newName) t db).db =
        (TxOp.perform (.renameTable (db.catalog.tableName table) newName) db).2 := by
  obtain ⟨n, hn⟩ := steps_succ db.catalog (.rename table newName)
  simp only [drive, Operator.openUnder, hn, Operator.openIn, TxOp.perform, TxOp.actor?, TxOp.effect]
  cases db.catalog.rename (db.catalog.tableName table) newName with
  | error e => exact ⟨rfl, rfl⟩
  | ok c => exact ⟨rfl, rfl⟩

theorem works_drive {c : Catalog} {stmt : Statement} (hop : s.plan c stmt = .ok op)
    (h : db.Active t) : db.Works (stmt.MayDo t) (drive stmt op t db).db := by
  have hunchanged : ∀ {db'} {p}, db' = db → db.Works p db' := by
    rintro _ p rfl
    exact Database.works_refl p _
  have hwithin : ∀ {stmt : Statement} {db'}, db.Works (TxOp.Within t) db' → db.Works (stmt.MayDo t) db' :=
    Database.works_mono fun _ => .inl
  have houtcome : ∀ {turn : Turn QueryResult} {r}, turn.outcome = r → turn.db = r.2 :=
    fun heq => congrArg Prod.snd heq
  cases stmt with
  | compute exprs =>
    cases hop
    exact hunchanged (Turn.db_of_outcome (drive_compute exprs))
  | select query =>
    obtain ⟨q, rfl, hfresh, _⟩ := plan_select hop
    rw [houtcome (drive_select query hfresh h)]
    exact hwithin (works_readThen h fun _ db' _ => Database.works_refl _ db')
  | insert table records =>
    cases hop
    rw [houtcome (drive_insert table records)]
    exact hwithin (works_modifying (acts_insertRows t table records) h.1)
  | delete table filter =>
    rw [plan_delete] at hop
    cases hscan : Plan.writeScan c table filter [] with
    | error e =>
      rw [hscan] at hop
      cases hop
    | ok p =>
      rw [hscan] at hop
      cases hop
      rw [houtcome (drive_delete table filter (QueryTree.fresh_targets ..) h)]
      exact hwithin (works_readThen h fun rids _ hk =>
        works_modifying (acts_deleteRows t table rids.toList) hk)
  | update table sets filter =>
    rw [plan_update] at hop
    cases htargets : updateTargets c table sets filter with
    | error e =>
      rw [htargets] at hop
      cases hop
    | ok targets =>
      rw [htargets] at hop
      cases hop
      rw [houtcome (drive_update table sets filter targets (QueryTree.fresh_targets ..) h)]
      exact hwithin (works_readThen h fun changes _ hk =>
        works_modifying (acts_updateRows t table changes.toList) hk)
  | explain stmt =>
    obtain ⟨input, rfl⟩ := plan_explain hop
    exact hunchanged (Turn.db_of_outcome (drive_explain stmt input))
  | createTable name columns =>
    cases hop
    rw [(drive_createTable name columns).2]
    exact Database.works_perform _ (.inr ⟨rfl, rfl⟩) db
  | renameTable table newName =>
    cases hop
    rw [(drive_renameTable table newName).2]
    exact Database.works_perform _ (.inr ⟨rfl, rfl⟩) db
  | showTables => cases hop
  | begin => cases hop
  | commit => cases hop
  | rollback => cases hop

end Session

end SnapshotSql
