import SnapshotSql.Proofs.Session.MirrorDrives
/-! # Work that leaves no trace -/

namespace SnapshotSql

/-- The statement manipulates rows, or begins or ends a transaction. -/
def Statement.transacts : Statement → Bool
  | begin | commit | rollback => true
  | stmt => stmt.manipulates

namespace Session

variable {s : Session} {t u : TxHandle} {db db' : Database} {stmt : Statement} {op : Operator} {c : Catalog}

/-- The session with the handle that is given out in place of its own if `t` is given out in addition. -/
def past (t : TxHandle) (s : Session) : Session :=
  { s with held := s.held.map fun tx => (t.past tx.1, tx.2) }

theorem held_past_none (h : s.held = none) : (s.past t).held = none := by rw [past, h, Option.map_none]

theorem held_past {origin : TxOrigin} (h : s.held = some (u, origin)) :
    (s.past t).held = some (t.past u, origin) := by rw [past, h, Option.map_some]

theorem plan_past (t : TxHandle) (s : Session) : (s.past t).plan c stmt = s.plan c stmt := rfl

/-- Two outcomes of a statement are the same, and one database mirrors the other. -/
structure SameOutcome (t : TxHandle) (o o' : Outcome) : Prop where
  result : SameResult o.result o'.result
  session : o.session = o'.session.past t
  mirrors : Database.Mirrors t o.db o'.db

theorem endingOf_congr {answer answer' : Except ExecError QueryResult} (h : SameResult answer answer') :
    endingOf answer = endingOf answer' := by
  cases answer with
  | error e =>
    cases answer' with
    | error e' => rfl
    | ok result => cases h
  | ok result =>
    cases answer' with
    | error e => cases h
    | ok result' => rfl

private theorem sameOutcome_of_turn {turn turn' : Turn QueryResult} (h : SameTurn t turn turn')
    (s : Session) : SameOutcome t ⟨turn.answer, s.past t, turn.db⟩ ⟨turn'.answer, s, turn'.db⟩ :=
  ⟨h.1, rfl, h.2⟩

private theorem sameOutcome_of_ended {turn turn' : Turn QueryResult} (h : SameTurn t turn turn')
    (hs : turn.db.Sound) (hs' : turn'.db.Sound) (hu : turn'.db.Active u) (s : Session) :
    SameOutcome t ⟨turn.answer, s.past t, turn.db.ended (t.past u) (endingOf turn.answer)⟩
      ⟨turn'.answer, s, turn'.db.ended u (endingOf turn'.answer)⟩ := by
  refine ⟨h.1, rfl, ?_⟩
  rw [endingOf_congr h.1]
  exact h.2.ended hs hs' hu _

private theorem sameOutcome_run (h : db.Retraces t db') (hready : s.Ready db')
    (hstmt : stmt.manipulates = true) (hop : s.plan db'.catalog stmt = .ok op) :
    SameOutcome t ((s.past t).run stmt op db) (s.run stmt op db') := by
  cases hheld : s.held with
  | some tx =>
    obtain ⟨u, origin⟩ := tx
    rw [run_held hheld, run_held (held_past hheld)]
    exact sameOutcome_of_turn (sameTurn_drive h (hready u origin hheld) hstmt hop) s
  | none =>
    obtain ⟨u, d', hbegin'⟩ : ∃ u d', db'.begin s.options.isolation = (u, d') := ⟨_, _, rfl⟩
    obtain ⟨d, hbegin⟩ : ∃ d, db.begin s.options.isolation = (t.past u, d) := by
      refine ⟨_, Prod.ext ?_ rfl⟩
      rw [(h.mirrors.begin s.options.isolation).1, hbegin']
    have hbegun := h.begin s.options.isolation
    have hactive := db'.active_begin s.options.isolation
    have hcatalog := db'.catalog_begin s.options.isolation
    rw [hbegin, hbegin'] at hbegun
    rw [hbegin'] at hactive hcatalog
    have hop' : s.plan d'.catalog stmt = .ok op := by rw [hcatalog, hop]
    have hturn := sameTurn_drive hbegun hactive hstmt hop'
    cases hauto : s.options.autoCommit with
    | false =>
      rw [run_opens hheld hauto hbegin', run_opens (held_past_none hheld) hauto hbegin]
      exact sameOutcome_of_turn hturn { s with held := some (u, .implicit) }
    | true =>
      have hpast := hbegun.mirrors.active_past hactive
      have hworks := works_drive hop hpast
      have hworks' := works_drive hop hactive
      have hdriven := active_mayDo hworks' hactive
      rw [run_commits hheld hauto hbegin' hdriven,
        run_commits (held_past_none hheld) hauto hbegin (active_mayDo hworks hpast)]
      exact sameOutcome_of_ended hturn (Database.evolves_works hbegun.sound hworks).1
        (Database.evolves_works hbegun.sound' hworks').1 hdriven s

private theorem sameOutcome_begin (h : db.Retraces t db') :
    SameOutcome t ((s.past t).begin db) (s.begin db') := by
  cases hheld : s.held with
  | none =>
    obtain ⟨hhandle, hmirrors⟩ := h.mirrors.begin s.options.isolation
    simp only [Session.begin, hheld, held_past_none hheld]
    refine ⟨rfl, ?_, hmirrors⟩
    show ({ s.past t with held := some ((db.begin s.options.isolation).1, .explicit) } : Session) = _
    rw [hhandle]
    rfl
  | some tx =>
    obtain ⟨u, origin⟩ := tx
    cases origin with
    | explicit =>
      simp only [Session.begin, hheld, held_past hheld]
      exact ⟨rfl, rfl, h.mirrors⟩
    | implicit =>
      simp only [Session.begin, hheld, held_past hheld]
      exact ⟨rfl, rfl, h.mirrors⟩

private theorem sameOutcome_finish (h : db.Retraces t db') (hready : s.Ready db') (how : Ending)
    (message : String) :
    SameOutcome t ((s.past t).finish how message db) (s.finish how message db') := by
  cases hheld : s.held with
  | none =>
    simp only [finish, hheld, held_past_none hheld]
    exact ⟨rfl, rfl, h.mirrors⟩
  | some tx =>
    obtain ⟨u, origin⟩ := tx
    have hu : db'.Active u := hready u origin hheld
    simp only [finish, hheld, held_past hheld, TxHandle.finish_run hu.2,
      TxHandle.finish_run (h.mirrors.active_past hu).2]
    exact ⟨rfl, rfl, h.mirrors.ended h.sound h.sound' hu how⟩

theorem execute_manipulates (h : stmt.manipulates = true) :
    s.execute stmt db = match s.plan db.catalog stmt with
      | .error e => ⟨.error e, s, db⟩
      | .ok op => s.run stmt op db := by
  cases stmt <;> first | rfl | cases h

private theorem sameOutcome_manipulates (h : db.Retraces t db') (hready : s.Ready db')
    (hstmt : stmt.manipulates = true) :
    SameOutcome t ((s.past t).execute stmt db) (s.execute stmt db') := by
  rw [execute_manipulates hstmt, execute_manipulates hstmt, plan_past, plan_congr h.mirrors.layout]
  cases hop : s.plan db'.catalog stmt with
  | error e => exact ⟨rfl, rfl, h.mirrors⟩
  | ok op => exact sameOutcome_run h hready hstmt hop

theorem sameOutcome_execute (h : db.Retraces t db') (hready : s.Ready db') (hstmt : stmt.transacts = true) :
    SameOutcome t ((s.past t).execute stmt db) (s.execute stmt db') := by
  cases stmt with
  | begin => exact sameOutcome_begin h
  | commit => exact sameOutcome_finish h hready .committed "COMMIT"
  | rollback => exact sameOutcome_finish h hready .aborted "ROLLBACK"
  | _ => exact sameOutcome_manipulates h hready hstmt

theorem past_of_ready (h : s.Ready db) (hnew : ¬db.Knows t) : s.past t = s := by
  cases hheld : s.held with
  | none => rw [past, hheld, Option.map_none, ← hheld]
  | some tx =>
    have hlt : tx.1.index < t.index := Nat.lt_of_lt_of_le (h tx.1 tx.2 hheld).1 (Nat.le_of_not_lt hnew)
    rw [past, hheld, Option.map_some, TxHandle.past_of_lt hlt, ← hheld]

theorem mirrors_drive (m : Database.Mirrors t db db') (hs : db.Sound) (hs' : db'.Sound)
    (hinformed : db'.Informed) (ht : db.Active t) (hstmt : stmt.manipulates = true)
    (hop : s.plan c stmt = .ok op) : Database.Mirrors t (drive stmt op t db).db db' := by
  apply And.right (a := (drive stmt op t db).db.Sound)
  apply Database.works_keeps (P := fun d => d.Sound ∧ Database.Mirrors t d db') (works_drive hop ht) _ ⟨hs, m⟩
  intro op d hmay ⟨hs, m⟩
  apply And.intro (Database.sound_perform hs op)
  rcases hmay with ⟨hactor, hending⟩ | ⟨harranges, _⟩
  · exact m.perform_extra hs hs' hinformed hactor hending
  · cases stmt <;> cases hstmt <;> cases harranges

private theorem execute_held {origin : TxOrigin} (hheld : s.held = some (t, origin))
    (m : Database.Mirrors t db db') (hs : db.Sound) (hs' : db'.Sound) (hinformed : db'.Informed)
    (ht : db.Active t) (hstmt : stmt.manipulates = true) :
    (s.execute stmt db).session = s ∧ Database.Mirrors t (s.execute stmt db).db db' := by
  rw [execute_manipulates hstmt]
  cases hop : s.plan db.catalog stmt with
  | error e => exact ⟨rfl, m⟩
  | ok op =>
    have hrun : s.run stmt op db = ⟨(drive stmt op t db).answer, s, (drive stmt op t db).db⟩ :=
      run_held hheld
    obtain ⟨_, hsession, hdb⟩ := parts_of_eq hrun
    exact ⟨hsession, hdb ▸ mirrors_drive m hs hs' hinformed ht hstmt hop⟩

private theorem execute_undone {e : ExecError} (hheld : s.held = none)
    (hauto : s.options.autoCommit = true) (hs : db.Sound) (hinformed : db.Informed)
    (hstmt : stmt.manipulates = true) (hfails : (s.execute stmt db).result = .error e) :
    (s.execute stmt db).session = s ∧ ((s.execute stmt db).db = db ∨
      ∃ d, Database.Mirrors (db.begin s.options.isolation).1 d db ∧ d.Sound ∧
        d.Active (db.begin s.options.isolation).1 ∧
        (s.execute stmt db).db = d.ended (db.begin s.options.isolation).1 .aborted) := by
  rw [execute_manipulates hstmt] at hfails ⊢
  cases hop : s.plan db.catalog stmt with
  | error e => exact ⟨rfl, .inl rfl⟩
  | ok op =>
    simp only [hop] at hfails ⊢
    have hactive := db.active_begin s.options.isolation
    have hsound : (db.begin s.options.isolation).2.Sound := Database.sound_change hs (.begin _ _)
    have hworks := works_drive hop hactive
    have hdriven := active_mayDo hworks hactive
    obtain ⟨hresult, hsession, hdb⟩ := parts_of_eq (run_commits hheld hauto rfl hdriven)
    refine ⟨hsession, .inr ⟨_, ?_, (Database.evolves_works hsound hworks).1, hdriven, ?_⟩⟩
    · exact mirrors_drive (Database.mirrors_begin _) hsound hs hinformed hactive hstmt hop
    · rw [hdb, ← hresult, hfails]
      rfl

end Session

namespace System

variable {w w' w₁ : System} {i : Nat} {s : Session} {t : TxHandle} {stmt : Statement}

/-- What statements answer that are run one after the other, each by one of the sessions. -/
def answers : List (Nat × Statement) → System → List (Option (Except ExecError QueryResult))
  | [], _ => []
  | (i, stmt) :: rest, w => (w.execute i stmt).1 :: answers rest (w.execute i stmt).2

/-! ## A system with a transaction in addition -/

/-- The system has the transaction `t` that was rolled back in addition to what another one has. -/
structure Retraces (t : TxHandle) (w w' : System) : Prop where
  valid : w.Valid
  valid' : w'.Valid
  sessions : w.sessions = w'.sessions.map (Session.past t)
  mirrors : Database.Mirrors t w.db w'.db
  undone : (w.db.transaction t).ending = some .aborted

theorem retraces_execute (h : w.Retraces t w') (i : Nat) (hstmt : stmt.transacts = true) :
    Option.Rel SameResult (w.execute i stmt).1 (w'.execute i stmt).1 ∧
      (w.execute i stmt).2.Retraces t (w'.execute i stmt).2 := by
  have hvalid := valid_execute h.valid i stmt
  have hvalid' := valid_execute h.valid' i stmt
  cases hi' : w'.sessions[i]? with
  | none =>
    have hi : w.sessions[i]? = none := by rw [h.sessions, List.getElem?_map, hi', Option.map_none]
    simp only [execute, hi, hi']
    exact ⟨.none, h⟩
  | some s =>
    have hi : w.sessions[i]? = some (s.past t) := by
      rw [h.sessions, List.getElem?_map, hi', Option.map_some]
    obtain ⟨_, _, hstep⟩ :=
      Session.step_execute stmt (h.valid.ready _ (List.mem_of_getElem? hi))
    have hevolves :=
      (Database.evolves_works (Database.sound_of_reachable h.valid.reachable) hstep.works).2
    have hsame := Session.sameOutcome_execute ⟨h.mirrors, h.undone, h.valid.reachable, h.valid'.reachable⟩
      (h.valid'.ready s (List.mem_of_getElem? hi')) hstmt
    simp only [execute, hi, hi'] at hvalid hvalid' ⊢
    refine ⟨.some hsame.result, hvalid, hvalid', ?_, hsame.mirrors, hevolves.ending h.undone⟩
    rw [h.sessions, hsame.session, List.map_set]

theorem retraces_answers {later : List (Nat × Statement)} (h : w.Retraces t w')
    (hlater : ∀ q ∈ later, q.2.transacts = true) :
    List.Forall₂ (Option.Rel SameResult) (w.answers later) (w'.answers later) := by
  induction later generalizing w w' with
  | nil => exact .nil
  | cons q later ih =>
    obtain ⟨hq, hlater⟩ := List.forall_mem_cons.mp hlater
    obtain ⟨hanswer, hretraces⟩ := retraces_execute h q.1 hq
    exact .cons hanswer (ih hretraces hlater)

/-! ## Work that is undone -/

/-- Work of a session that holds no transaction: one that it begins and rolls back, or a statement that
commits automatically and fails. -/
inductive Undone (w : System) (i : Nat) : List Statement → Prop
  | rolledBack {s : Session} {stmts : List Statement} (hi : w.sessions[i]? = some s) (hs : s.held = none)
      (h : ∀ stmt ∈ stmts, stmt.manipulates = true) : Undone w i (.begin :: (stmts ++ [.rollback]))
  | failed {s : Session} {stmt : Statement} {e : ExecError} (hi : w.sessions[i]? = some s)
      (hs : s.held = none) (hauto : s.options.autoCommit = true) (h : stmt.manipulates = true)
      (hfails : (w.execute i stmt).1 = some (.error e)) : Undone w i [stmt]

/-- Session `i` works in the transaction `t`, which has begun in addition. -/
private structure Working (i : Nat) (s : Session) (t : TxHandle) (w w₁ : System) : Prop where
  sessions : w₁.sessions = w.sessions.set i { s with held := some (t, .explicit) }
  mirrors : Database.Mirrors t w₁.db w.db

private theorem informed_of_valid (hv : w.Valid) : w.db.Informed := by
  obtain ⟨history, hfinal⟩ := hv.reachable
  rw [← hfinal]
  exact Database.informed_of_history history

private theorem working_begin (hi : w.sessions[i]? = some s) (hs : s.held = none) :
    Working i s (w.db.begin s.options.isolation).1 w (w.execute i .begin).2 := by
  simp only [execute, hi, Session.execute, Session.begin, hs]
  exact ⟨rfl, Database.mirrors_begin _⟩

private theorem working_session (hi : w.sessions[i]? = some s) (h : Working i s t w w₁) :
    w₁.sessions[i]? = some { s with held := some (t, .explicit) } := by
  rw [h.sessions, List.getElem?_set_self (List.getElem?_eq_some_iff.mp hi).1]

private theorem working_execute (hi : w.sessions[i]? = some s) (hv : w.Valid) (hv₁ : w₁.Valid)
    (h : Working i s t w w₁) (hstmt : stmt.manipulates = true) :
    Working i s t w (w₁.execute i stmt).2 := by
  have hsession := working_session hi h
  have hactive : w₁.db.Active t := hv₁.ready _ (List.mem_of_getElem? hsession) t .explicit rfl
  obtain ⟨hsame, hmirrors⟩ := Session.execute_held (s := { s with held := some (t, .explicit) }) rfl
    h.mirrors (Database.sound_of_reachable hv₁.reachable) (Database.sound_of_reachable hv.reachable)
    (informed_of_valid hv) hactive hstmt
  simp only [execute, hsession]
  exact ⟨by rw [hsame, h.sessions, List.set_set], hmirrors⟩

private theorem set_self (hi : w.sessions[i]? = some s) : w.sessions.set i s = w.sessions := by
  obtain ⟨hlt, rfl⟩ := List.getElem?_eq_some_iff.mp hi
  exact List.set_getElem_self hlt

private theorem retraces_over (hv : w.Valid) (hv₁ : w₁.Valid) (hnew : ¬w.db.Knows t)
    (hsessions : w₁.sessions = w.sessions) (hmirrors : Database.Mirrors t w₁.db w.db)
    (hover : (w₁.db.transaction t).ending = some .aborted) : w₁.Retraces t w := by
  refine ⟨hv₁, hv, ?_, hmirrors, hover⟩
  have hpast : w.sessions.map (Session.past t) = w.sessions.map id :=
    List.map_congr_left fun r hr => Session.past_of_ready (hv.ready r hr) hnew
  rw [hsessions, hpast, List.map_id]

private theorem retraces_rollback (hi : w.sessions[i]? = some s) (hs : s.held = none) (hv : w.Valid)
    (hv₁ : w₁.Valid) (hnew : ¬w.db.Knows t) (h : Working i s t w w₁) :
    (w₁.execute i .rollback).2.Retraces t w := by
  have hsession := working_session hi h
  have hactive : w₁.db.Active t := hv₁.ready _ (List.mem_of_getElem? hsession) t .explicit rfl
  have hend : (w₁.execute i .rollback).2 = ⟨w.sessions, w₁.db.ended t .aborted⟩ := by
    simp only [execute, hsession, Session.execute, Session.finish, TxHandle.finish_run hactive.2]
    rw [h.sessions, List.set_set, ← hs, set_self hi]
  have hv₂ := valid_execute hv₁ i .rollback
  rw [hend] at hv₂ ⊢
  apply retraces_over hv hv₂ hnew rfl
  · exact h.mirrors.ended_extra (Database.sound_of_reachable hv₁.reachable)
      (Database.sound_of_reachable hv.reachable) hactive .aborted
  · rw [Database.transaction_ended_self hactive.1]

private theorem retraces_rolledBack {stmts : List Statement} (hv : w.Valid)
    (hi : w.sessions[i]? = some s) (hs : s.held = none)
    (h : ∀ stmt ∈ stmts, stmt.manipulates = true) :
    (w.run ((.begin :: (stmts ++ [.rollback])).map (.execute i))).Retraces
      (w.db.begin s.options.isolation).1 w := by
  have hstep : ∀ (e : Event) w₁, (∃ stmt : Statement, stmt.manipulates = true ∧ e = .execute i stmt) →
      w₁.Valid → Working i s (w.db.begin s.options.isolation).1 w w₁ →
      Working i s (w.db.begin s.options.isolation).1 w (e.perform w₁) := by
    rintro _ w₁ ⟨stmt, hstmt, rfl⟩ hv₁ hw₁
    exact working_execute hi hv hv₁ hw₁ hstmt
  have hevents : ∀ e ∈ stmts.map (Event.execute i),
      ∃ stmt : Statement, stmt.manipulates = true ∧ e = .execute i stmt := by
    intro e he
    obtain ⟨stmt, hmem, rfl⟩ := List.mem_map.mp he
    exact ⟨stmt, h stmt hmem, rfl⟩
  obtain ⟨hvalid, hworking⟩ :=
    run_keeps hstep hevents (valid_execute hv i .begin) (working_begin hi hs)
  have hrun : w.run ((.begin :: (stmts ++ [.rollback])).map (.execute i)) =
      (((w.execute i .begin).2.run (stmts.map (.execute i))).execute i .rollback).2 := by
    simp only [run, List.map_cons, List.map_append, List.map_nil, List.foldl_cons, List.foldl_append,
      List.foldl_nil, Event.perform]
  rw [hrun]
  exact retraces_rollback hi hs hv hvalid (Database.not_knows_begin _) hworking

private theorem retraces_failed {e : ExecError} (hv : w.Valid) (hi : w.sessions[i]? = some s)
    (hs : s.held = none) (hauto : s.options.autoCommit = true) (hstmt : stmt.manipulates = true)
    (hfails : (w.execute i stmt).1 = some (.error e)) :
    (w.execute i stmt).2 = w ∨
      (w.execute i stmt).2.Retraces (w.db.begin s.options.isolation).1 w := by
  have hsound := Database.sound_of_reachable hv.reachable
  have hv₁ := valid_execute hv i stmt
  simp only [execute, hi, Option.some.injEq] at hfails hv₁ ⊢
  obtain ⟨hsession, hdb⟩ :=
    Session.execute_undone hs hauto hsound (informed_of_valid hv) hstmt hfails
  rw [hsession, set_self hi] at hv₁ ⊢
  rcases hdb with hdb | ⟨d, hmirrors, hsound', hactive, hdb⟩
  · rw [hdb]
    exact .inl rfl
  · rw [hdb] at hv₁ ⊢
    apply Or.inr
    apply retraces_over hv hv₁ (Database.not_knows_begin _) rfl
    · exact hmirrors.ended_extra hsound' hsound hactive .aborted
    · rw [Database.transaction_ended_self hactive.1]

private theorem retraces_undone {block : List Statement} (hv : w.Valid) (h : w.Undone i block) :
    w.run (block.map (.execute i)) = w ∨ ∃ t, (w.run (block.map (.execute i))).Retraces t w := by
  cases h with
  | rolledBack hi hs h => exact .inr ⟨_, retraces_rolledBack hv hi hs h⟩
  | failed hi hs hauto h hfails => exact (retraces_failed hv hi hs hauto h hfails).imp_right fun h => ⟨_, h⟩

/-- Work that is undone leaves no trace. Whatever the sessions do after one of them rolled back a transaction,
or a statement of its own failed, is answered with the same rows, counts and errors as if it had not done
so. Only the row ids that are named by conflicts may differ. -/
theorem answers_undone (events : List Event) (i : Nat) (block : List Statement)
    (later : List (Nat × Statement)) (hblock : (after events).Undone i block)
    (hlater : ∀ q ∈ later, q.2.transacts = true) :
    List.Forall₂ (Option.Rel SameResult)
      (((after events).run (block.map (.execute i))).answers later) ((after events).answers later) := by
  rcases retraces_undone (valid_after events) hblock with hsame | ⟨t, hretraces⟩
  · rw [hsame, List.forall₂_same]
    intro answer _
    cases answer with
    | none => exact .none
    | some result => exact .some (.of_eq rfl)
  · exact retraces_answers hretraces hlater

/-- Neither the session that reads beside it nor the one that worked notices what was rolled back. -/
theorem answers_undone_besideAnother :
    let block : List Statement :=
      .begin :: ([.delete ⟨0⟩ none, .insert ⟨0⟩ [[.integer 2]], .insert ⟨0⟩ [[.text "a"]]] ++ [.rollback])
    let later : List (Nat × Statement) :=
      [(0, Session.allRows), (1, .delete ⟨0⟩ none), (0, Session.allRows), (0, .commit), (0, Session.allRows)]
    (after besideAnother).Undone 1 block ∧ (∀ q ∈ later, q.2.transacts = true) ∧
      List.Forall₂ (Option.Rel SameResult)
        (((after besideAnother).run (block.map (.execute 1))).answers later)
        ((after besideAnother).answers later) :=
  have hi : (after besideAnother).sessions[1]? = some { options := {} } := by decide +kernel
  have hblock := .rolledBack hi rfl (by decide)
  ⟨hblock, by decide, answers_undone _ _ _ _ hblock (by decide)⟩

end System

end SnapshotSql
