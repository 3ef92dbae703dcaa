import SnapshotSql.Proofs.Query.Execution
/-! # Operators that read their input to its end -/

namespace SnapshotSql.Operator

abbrev Listed := RowView × Step

/-- Called with `n` steps until it comes to its end, the operator yields these rows. -/
inductive Lists (n : Nat) :
    Operator → Database → List Listed → Operator → Database → Prop
  | done {op op' : Operator} {db db' : Database} (h : nextIn n .empty op db = .ok .done op' db') :
      Lists n op db [] op' db'
  | row {op mid op' : Operator} {db between db' : Database} {view : RowView} {step : Step}
      {rows : List Listed} (h : nextIn n .empty op db = .ok step mid between)
      (hstep : step ≠ .done) (hview : mid.current = .ok view)
      (hrest : Lists n mid between rows op' db') : Lists n op db ((view, step) :: rows) op' db'

/-- Opened with `n` steps and read to its end, the operator yields these rows, fewer than `n`. -/
def Drains (n : Nat) (t : TxHandle) (op : Operator) (db : Database) (rows : List Listed)
    (op' : Operator) (db' : Database) : Prop :=
  rows.length < n ∧ ∃ mid between,
    openIn n t op db = .ok () mid between ∧ Lists n mid between rows op' db'

/-- The values of an expression on all rows. -/
def column (e : Expr) (rows : List Listed) : List Value := rows.filterMap fun r => (r.1.eval e).toOption

variable {n k : Nat} {t : TxHandle} {op op' : Operator} {db db' : Database} {rows : List Listed}
  {σ : Type} {f : σ → RowView → Step → Except ExecError σ}

theorem Lists.step_ne_done (h : Lists n op db rows op' db') : ∀ r ∈ rows, r.2 ≠ .done := by
  induction h with
  | done => nofun
  | row _ hstep _ _ ih => exact List.forall_mem_cons.mpr ⟨hstep, ih⟩

theorem mem_column {e : Expr} {r : Listed} {v : Value} (hr : r ∈ rows) (hv : r.1.eval e = .ok v) :
    v ∈ column e rows :=
  List.mem_filterMap.mpr ⟨r, hr, toOption_eq_some.mpr hv⟩

/-! ## Taking in the rows -/

theorem foldRows_ok (h : Lists n op db rows op' db') (hk : rows.length < k) {acc acc' : σ}
    (hfold : rows.foldlM (fun acc r => f acc r.1 r.2) acc = .ok acc') :
    foldRows (nextIn n .empty) (fun _ => f) k acc op db = .ok acc' op' db' := by
  induction h generalizing k acc with
  | done hnext =>
    obtain ⟨k, rfl⟩ := Nat.exists_eq_add_of_lt hk
    cases hfold
    simp only [foldRows, hnext]
    rfl
  | @row _ _ _ _ _ _ view step _ hnext hstep hview _ ih =>
    obtain ⟨k, rfl⟩ := Nat.exists_eq_succ_of_ne_zero (Nat.ne_of_gt (Nat.zero_lt_of_lt hk))
    rw [List.foldlM_cons] at hfold
    obtain ⟨mid, hmid, hfold⟩ := bind_eq_ok.mp hfold
    have hrest := ih (Nat.lt_of_succ_lt_succ hk) hfold
    cases step with
    | done => exact absurd rfl hstep
    | row | contested =>
      simp only [foldRows, hnext, Turn.ok, hview, Except.bind, hmid]
      exact hrest

theorem foldRows_error (h : Lists n op db rows op' db') (hk : rows.length < k) {acc : σ}
    {e : ExecError} (hfold : rows.foldlM (fun acc r => f acc r.1 r.2) acc = .error e) :
    ∃ mid between, foldRows (nextIn n .empty) (fun _ => f) k acc op db = .fail e mid between := by
  induction h generalizing k acc with
  | done => cases hfold
  | @row _ mid _ _ between _ view step _ hnext hstep hview _ ih =>
    obtain ⟨k, rfl⟩ := Nat.exists_eq_succ_of_ne_zero (Nat.ne_of_gt (Nat.zero_lt_of_lt hk))
    rw [List.foldlM_cons] at hfold
    cases step with
    | done => exact absurd rfl hstep
    | row | contested =>
      simp only [foldRows, hnext, Turn.ok, hview, Except.bind]
      cases hmid : f acc view _ with
      | error e' =>
        rw [hmid] at hfold
        cases hfold
        exact ⟨mid, between, rfl⟩
      | ok next =>
        rw [hmid] at hfold
        exact ih (Nat.lt_of_succ_lt_succ hk) hfold

theorem afterReading_ok (h : Drains n t op db rows op' db') {acc acc' : σ}
    (hfold : rows.foldlM (fun acc r => f acc r.1 r.2) acc = .ok acc')
    (parent : Operator → Operator) (go : σ → Operator → Database → Turn Unit) :
    afterReading (openIn n t op db) (foldRows (nextIn n .empty) (fun _ => f) n acc) parent go =
      go acc' op' db' := by
  obtain ⟨hlen, mid, between, hopen, hlists⟩ := h
  simp only [afterReading, hopen, Turn.ok, foldRows_ok hlists hlen hfold]

theorem afterReading_error (h : Drains n t op db rows op' db') {acc : σ} {e : ExecError}
    (hfold : rows.foldlM (fun acc r => f acc r.1 r.2) acc = .error e)
    (parent : Operator → Operator) (go : σ → Operator → Database → Turn Unit) :
    ∃ mid between,
      afterReading (openIn n t op db) (foldRows (nextIn n .empty) (fun _ => f) n acc) parent go =
        .fail e mid between := by
  obtain ⟨hlen, mid, between, hopen, hlists⟩ := h
  obtain ⟨mid', between', hrun⟩ := foldRows_error hlists hlen hfold
  refine ⟨parent mid', between', ?_⟩
  simp only [afterReading, hopen, Turn.ok, hrun, Turn.fail]

/-! ## Replaying -/

theorem next_of_nextIn {env : RowView} {turn : Turn Step}
    (h : ∀ n, nextIn (n + 1) env op db = turn) : op.next env db = turn := by
  have hsteps : op.steps db.catalog = op.stepBound db.catalog + (spareSteps - 1) + 1 := by
    simp only [steps, spareSteps]
  rw [next, hsteps, h]

/-- A buffer of whole rows with proper steps is replayed from its position to its end. -/
theorem answers_replay {parent : Buffer → Operator} {kind : OperatorKind}
    (hnext : ∀ b db, (parent b).next .empty db = replay b parent db)
    (hcurrent : ∀ b, (parent b).current = ownedRow kind b.row?) {rows : Array (Row × Step)}
    (hwhole : ∀ r ∈ rows.toList, r.1.names.length = r.1.values.length ∧ r.2 ≠ .done)
    (b : Buffer) (hb : b.rows = rows) (db : Database) :
    (parent b).Answers db ((rows.toList.drop b.position).map fun r => (r.2, .ok r.1)) (.ok ()) := by
  induction hlist : rows.toList.drop b.position generalizing b with
  | nil =>
    have hnone : b.rows[b.position]? = none := by
      rw [hb, Array.getElem?_eq_none_iff]
      simpa using hlist
    have hend : (parent b).next .empty db = .ok .done (parent { b with current := none }) db := by
      rw [hnext, replay, Buffer.next, hnone]
    exact .done hend
  | cons r rest ih =>
    have hsome : b.rows[b.position]? = some r := by
      rw [hb, ← Array.getElem?_toList, ← List.head?_drop, hlist]
      rfl
    obtain ⟨hnames, hstep⟩ := hwhole r (List.mem_of_mem_drop (hlist ▸ List.mem_cons_self))
    let after : Buffer := { b with position := b.position + 1, current := some b.position }
    have hrow : (parent after).currentRow = .ok r.1 := by
      rw [currentRow, hcurrent, Buffer.row?]
      simp only [after, Option.bind_some, hsome, Option.map_some]
      exact RowView.copy_owned hnames
    have hcall : (parent b).next .empty db = .ok r.2 (parent after) db := by
      rw [hnext, replay, Buffer.next, hsome]
    have hrest : rows.toList.drop after.position = rest := by
      rw [← List.drop_drop, hlist]
      rfl
    rw [List.map_cons, ← hrow]
    exact .row hcall hstep (ih after hb hrest)

/-! ## What drains -/

theorem lists_stringList (hn : 0 < n) (s : StringList)
    (hsteps : ∀ r ∈ s.buffer.rows.toList, r.2 ≠ .done) (db : Database) :
    ∃ op', Lists n (.stringList s) db
      ((s.buffer.rows.toList.drop s.buffer.position).map fun r => (.owned r.1, r.2)) op' db := by
  obtain ⟨n, rfl⟩ := Nat.exists_eq_add_of_lt hn
  induction hlist : s.buffer.rows.toList.drop s.buffer.position generalizing s with
  | nil =>
    have hnone : s.buffer.rows[s.buffer.position]? = none := by
      rw [Array.getElem?_eq_none_iff]
      simpa using hlist
    have hend : nextIn (0 + n + 1) .empty (.stringList s) db =
        .ok .done (.stringList { s with buffer := { s.buffer with current := none } }) db := by
      simp only [nextIn, replay, Buffer.next, hnone]
    exact ⟨_, .done hend⟩
  | cons r rest ih =>
    have hsome : s.buffer.rows[s.buffer.position]? = some r := by
      rw [← Array.getElem?_toList, ← List.head?_drop, hlist]
      rfl
    have hstep := hsteps r (List.mem_of_mem_drop (hlist ▸ List.mem_cons_self))
    let after : Buffer := { s.buffer with
      position := s.buffer.position + 1, current := some s.buffer.position }
    obtain ⟨op', hrest⟩ := ih { s with buffer := after } hsteps
      (by rw [← List.drop_drop, hlist]; rfl)
    have hcall : nextIn (0 + n + 1) .empty (.stringList s) db =
        .ok r.2 (.stringList { s with buffer := after }) db := by
      simp only [nextIn, replay, Buffer.next, hsome]
      rfl
    have hcurrent : current (.stringList { s with buffer := after }) = .ok (.owned r.1) := by
      simp only [current, after, Buffer.row?, Option.bind_some, hsome, Option.map_some]
      rfl
    exact ⟨op', .row hcall hstep hcurrent hrest⟩

theorem drains_stringList (s : StringList) (hsteps : ∀ r ∈ s.buffer.rows.toList, r.2 ≠ .done)
    (hn : s.buffer.rows.size < n) (t : TxHandle) (db : Database) :
    ∃ op', Drains n t (.stringList s) db
      (s.buffer.rows.toList.map fun r => (.owned r.1, r.2)) op' db := by
  obtain ⟨op', hlists⟩ := lists_stringList (Nat.zero_lt_of_lt hn)
    { s with buffer := s.buffer.rewind } hsteps db
  refine ⟨op', by simpa using hn, _, db, ?_, hlists⟩
  obtain ⟨n, rfl⟩ := Nat.exists_eq_add_of_lt (Nat.zero_lt_of_lt hn)
  simp only [openIn]

end SnapshotSql.Operator

namespace SnapshotSql

def Stream.listed : Stream → List Operator.Listed
  | done => []
  | fail _ => []
  | row v c rest => (v, .of c) :: rest.listed
  | touch rest => rest.listed

theorem Stream.length_listed (s : Stream) : s.listed.length = s.length := by
  induction s with
  | done | fail => rfl
  | row v c rest ih => rw [listed, length, List.length_cons, ih]
  | touch rest ih => exact ih

namespace QueryTree

variable {q : QueryTree} {t : TxHandle} {db : Database} {op : Operator} {n k : Nat} {s : Stream}

private theorem lists_of_delivers {touches started : Bool}
    (h : Delivers t db q k touches s op) (hk : k ≤ n)
    (hruns : q.Runs (db.reader t) t started op) (hlast : s.last = .ok ()) :
    ∃ op' db', Operator.Lists n op (db.phase t started) s.listed op' db' := by
  induction s generalizing op started touches with
  | done =>
    obtain ⟨op', hrun, _⟩ := h n hk started hruns
    exact ⟨op', _, .done hrun⟩
  | fail e => cases hlast
  | row v c rest ih =>
    obtain ⟨mid, hrun, hruns', hcurrent, hrest⟩ := h n hk started hruns
    obtain ⟨op', db', hlists⟩ := ih hrest hruns' hlast
    exact ⟨op', db', .row hrun (Step.of_ne_done c) hcurrent hlists⟩
  | touch rest ih => exact ih h hruns hlast

/-- A query that can be read to its end drains into its stream, in the steps that an operator over it
is granted. -/
theorem drains_stream (hq : q.Fresh) (h : db.Active t) (hs : q.stream (db.reader t) = .ok s)
    (hlast : s.last = .ok ()) (parent : Operator) (hparent : parent.stepBound db.catalog =
      Operator.passBound (q.operator.rowBound db.catalog) (q.operator.stepBound db.catalog)) :
    ∃ n op' db', n + 1 = parent.steps db.catalog ∧ Operator.Drains n t q.operator db s.listed op' db' := by
  obtain ⟨n, hn⟩ : ∃ n, n + 1 = parent.steps db.catalog :=
    ⟨parent.stepBound db.catalog + (Operator.spareSteps - 1), rfl⟩
  have hruns := runs_operator (db.reader t) t false hq
  obtain ⟨hsize, hfuel⟩ : q.size (db.reader t) ≤ q.operator.rowBound db.catalog ∧
      q.fuel (db.reader t) ≤ q.operator.stepBound db.catalog := bounds_le hruns
  have hlength := length_stream _ q hs
  have hsteps : n + 1 = parent.stepBound db.catalog + Operator.spareSteps := hn
  unfold Operator.spareSteps at hsteps
  unfold Operator.passBound at hparent
  have hopens : Opens t db q false (q.operator.openIn n t db) := opens h hruns (by omega)
  cases hturn : q.operator.openIn n t db with
  | mk answer mid between =>
    rw [hturn] at hopens
    obtain ⟨hbetween, hruns', hanswer⟩ := hopens
    rw [hs] at hanswer
    obtain ⟨hok, hdelivers⟩ := hanswer
    cases hok
    cases hbetween
    obtain ⟨op', db', hlists⟩ := lists_of_delivers (n := n) hdelivers (by omega) hruns' hlast
    exact ⟨n, op', db', hn, by rw [Stream.length_listed]; omega, mid, _, hturn, hlists⟩

end QueryTree

end SnapshotSql
