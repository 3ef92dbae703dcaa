import SnapshotSql.Proofs.Query.Run
/-! # What operators deliver -/

namespace SnapshotSql.QueryTree

variable {t : TxHandle} {db : Database} {q r : QueryTree} {op : Operator} {n m : Nat} {s : Stream}
  {f f' : Bool} {answer answer' : Except ExecError Step} {after after' : Operator → Prop}

private theorem calls_mono (hnm : n ≤ m) (hafter : ∀ op', after op' → after' op')
    (h : Calls t db q n f answer op after) : Calls t db q m f answer op after' := by
  intro k hk started hruns
  obtain ⟨op', hrun, hruns', hop'⟩ := h k (Nat.le_trans hnm hk) started hruns
  exact ⟨op', hrun, hruns', hafter op' hop'⟩

theorem delivers_mono (hnm : n ≤ m) (h : Delivers t db q n f s op) : Delivers t db q m f s op := by
  induction s generalizing op f with
  | done => exact calls_mono hnm (fun _ h => h) h
  | fail e => exact calls_mono hnm (fun _ h => h) h
  | row v c rest ih => exact calls_mono hnm (fun op' h => ⟨h.1, ih h.2⟩) h
  | touch rest ih => exact ih h

private theorem delivers_touchIf {opened : Bool} (h : Delivers t db q n (f || opened) s op) :
    Delivers t db q n f (s.touchIf opened) op := by
  cases opened with
  | false =>
    rw [Bool.or_false] at h
    exact h
  | true =>
    rw [Bool.or_true] at h
    exact h

private theorem calls_of_forward
    (h : ∀ k ≥ m, ∀ started, q.Runs (db.reader t) t started op → ∃ k' ≥ n, ∃ op',
      q.Runs (db.reader t) t (started || f) op' ∧
      op.nextIn k .empty (db.phase t started) = op'.nextIn k' .empty (db.phase t (started || f)) ∧
      Calls t db q n f' answer op' after) :
    Calls t db q m (f || f') answer op after := by
  intro k hk started hruns
  obtain ⟨k', hk', op', hruns', heq, hcalls⟩ := h k hk started hruns
  obtain ⟨op'', hrun, hruns'', hafter⟩ := hcalls k' hk' _ hruns'
  rw [Bool.or_assoc] at hrun hruns''
  exact ⟨op'', heq.trans hrun, hruns'', hafter⟩

theorem delivers_of_forward (hnm : n ≤ m)
    (h : ∀ k ≥ m, ∀ started, q.Runs (db.reader t) t started op → ∃ k' ≥ n, ∃ op',
      q.Runs (db.reader t) t (started || f) op' ∧
      op.nextIn k .empty (db.phase t started) = op'.nextIn k' .empty (db.phase t (started || f)) ∧
      Delivers t db q n f' s op') :
    Delivers t db q m (f || f') s op := by
  induction s generalizing f' with
  | done => exact calls_of_forward h
  | fail e => exact calls_of_forward h
  | row v c rest =>
    have hcalls := calls_of_forward h
    exact calls_mono (Nat.le_refl m) (fun op' h => ⟨h.1, delivers_mono hnm h.2⟩) hcalls
  | touch rest ih =>
    have htouched : Delivers t db q m (f || true) rest op := ih h
    rw [Bool.or_true] at htouched
    exact htouched

private theorem calls_lift {parent : Operator → Operator}
    (hnext : ∀ m op' db db', op.nextIn m .empty db = ⟨answer, op', db'⟩ → after op' →
      (parent op).nextIn (m + 1) .empty db = ⟨answer', parent op', db'⟩)
    (hdown : ∀ started, r.Runs (db.reader t) t started (parent op) →
      q.Runs (db.reader t) t started op)
    (hup : ∀ started op', r.Runs (db.reader t) t started (parent op) →
      q.Runs (db.reader t) t (started || f) op' → r.Runs (db.reader t) t (started || f) (parent op'))
    (hafter : ∀ op', after op' → after' (parent op'))
    (h : Calls t db q n f answer op after) : Calls t db r (n + 1) f answer' (parent op) after' := by
  intro m hm started hruns
  obtain ⟨m, rfl⟩ := Nat.exists_eq_add_of_le' (Nat.le_of_add_left_le hm)
  obtain ⟨op', hrun, hruns', hop'⟩ := h m (Nat.le_of_succ_le_succ hm) started (hdown started hruns)
  exact ⟨parent op', hnext m op' _ _ hrun hop', hup started op' hruns hruns', hafter op' hop'⟩

/-! ## Scans -/

private def scanFrom (R : Reader) (s : TableScan) (vs : List Version) : Stream :=
  (Stream.ofVersions (R.see s.access) s.view vs).sift s.policy fun v =>
    (RowView.joined v .empty).holdsAll s.predicates

/-- What one search of a scan answers, and the versions that are left after it. -/
private def Found (t : TxHandle) (db : Database) (s : TableScan) (versions : Array Version)
    (vs : List Version) (turn : Turn Step) : Prop :=
  (∃ k, scanFrom (db.reader t) s vs = .done ∧
      turn = .ok .done (.tableScan { s with cursor := k, current := none }) (db.phase t true)) ∨
    (∃ k current e, scanFrom (db.reader t) s vs = .fail e ∧
      turn = .fail e (.tableScan { s with cursor := k, current }) (db.phase t true)) ∨
    ∃ k v c, scanFrom (db.reader t) s vs =
        .row (s.view v) c (scanFrom (db.reader t) s (versions.toList.drop k)) ∧
      turn = .ok (.of c) (.tableScan { s with cursor := k, current := some v }) (db.phase t true) ∧
      (versions.toList.drop k).length < vs.length

private theorem found_cons {s : TableScan} {versions : Array Version} {v : Version}
    {vs : List Version} {turn : Turn Step}
    (hskip : scanFrom (db.reader t) s (v :: vs) = scanFrom (db.reader t) s vs)
    (h : Found t db s versions vs turn) : Found t db s versions (v :: vs) turn := by
  rcases h with ⟨k, h, hturn⟩ | ⟨k, current, e, h, hturn⟩ | ⟨k, w, c, h, hturn, hlen⟩
  · exact .inl ⟨k, hskip.trans h, hturn⟩
  · exact .inr (.inl ⟨k, current, e, hskip.trans h, hturn⟩)
  · exact .inr (.inr ⟨k, w, c, hskip.trans h, hturn, Nat.lt_succ_of_lt hlen⟩)

private theorem scanFrom_cons (R : Reader) (s : TableScan) (v : Version) (vs : List Version) :
    scanFrom R s (v :: vs) =
      match R.see s.access v with
      | .invisible => scanFrom R s vs
      | seen =>
        match s.accepts .empty v with
        | .error e => .fail e
        | .ok accepted =>
          if accepted || TableScan.surfaces s.policy (TableScan.stepOf seen) then
            .row (s.view v) (seen = .contested) (scanFrom R s vs)
          else scanFrom R s vs := by
  cases hsee : R.see s.access v with
  | invisible => simp [scanFrom, Stream.ofVersions, hsee]
  | visible =>
    simp only [scanFrom, Stream.ofVersions, hsee, Stream.sift_row]
    rfl
  | contested =>
    simp only [scanFrom, Stream.ofVersions, hsee, Stream.sift_row]
    rfl

private theorem drop_eq_cons {versions : Array Version} {k : Nat} {v : Version}
    (h : versions[k]? = some v) : versions.toList.drop k = v :: versions.toList.drop (k + 1) := by
  rw [← Array.getElem?_toList] at h
  obtain ⟨hk, rfl⟩ := List.getElem?_eq_some_iff.mp h
  exact List.drop_eq_getElem_cons hk

private theorem found_seen {s : TableScan} {versions : Array Version} {k : Nat} {turn : Turn Step}
    (v : Version) (current : Option Version)
    (hsee : (db.reader t).see s.access v ≠ .invisible)
    (hrest : Found t db s versions (versions.toList.drop k) turn) :
    Found t db s versions (v :: versions.toList.drop k)
      (match s.accepts .empty v with
      | .error e => .fail e (.tableScan { s with cursor := k, current }) (db.phase t true)
      | .ok accepted =>
        if accepted ||
            TableScan.surfaces s.policy (TableScan.stepOf ((db.reader t).see s.access v)) then
          .ok (TableScan.stepOf ((db.reader t).see s.access v))
            (.tableScan { s with cursor := k, current := some v }) (db.phase t true)
        else turn) := by
  have hcons : scanFrom (db.reader t) s (v :: versions.toList.drop k) =
      match s.accepts .empty v with
      | .error e => .fail e
      | .ok accepted =>
        if accepted ||
            TableScan.surfaces s.policy (TableScan.stepOf ((db.reader t).see s.access v)) then
          .row (s.view v) ((db.reader t).see s.access v = .contested)
            (scanFrom (db.reader t) s (versions.toList.drop k))
        else scanFrom (db.reader t) s (versions.toList.drop k) := by
    rw [scanFrom_cons]
    cases hseen : (db.reader t).see s.access v with
    | invisible => exact absurd hseen hsee
    | visible => rfl
    | contested => rfl
  have hstep : TableScan.stepOf ((db.reader t).see s.access v) =
      .of ((db.reader t).see s.access v = .contested) := by
    cases (db.reader t).see s.access v <;> rfl
  cases haccepts : s.accepts .empty v with
  | error e =>
    rw [haccepts] at hcons
    exact .inr (.inl ⟨k, current, e, hcons, rfl⟩)
  | ok accepted =>
    rw [haccepts] at hcons
    simp only at hcons ⊢
    split
    · rename_i hpass
      rw [if_pos hpass] at hcons
      refine .inr (.inr ⟨k, v, _, hcons, by rw [hstep], ?_⟩)
      exact Nat.lt_succ_self _
    · rename_i hpass
      rw [if_neg hpass] at hcons
      exact found_cons hcons hrest

private theorem seek_found (ht : db.Active t) (versions : Array Version) (s : TableScan) (k : Nat)
    (current : Option Version) (hn : versions.size - k ≤ n) :
    Found t db s versions (versions.toList.drop k)
      (TableScan.seek t (db.snapshotOf t) .empty versions n { s with cursor := k, current }
        (db.phase t true)) := by
  induction n generalizing k with
  | zero =>
    have hnil : versions.toList.drop k = [] := by
      rw [List.drop_eq_nil_iff, Array.length_toList]
      omega
    rw [hnil]
    exact .inl ⟨k, rfl, rfl⟩
  | succ n ih =>
    rw [TableScan.seek]
    cases hv : versions[k]? with
    | none =>
      have hnil : versions.toList.drop k = [] := by
        rw [List.drop_eq_nil_iff, Array.length_toList]
        exact Array.getElem?_eq_none_iff.mp hv
      rw [hnil]
      exact .inl ⟨k, rfl, rfl⟩
    | some v =>
      have hrest := ih (k + 1) (by omega)
      have hcons := scanFrom_cons (db.reader t) s v (versions.toList.drop (k + 1))
      rw [drop_eq_cons hv]
      simp only [Database.visibility_phase ht]
      cases hsee : (db.reader t).see s.access v with
      | invisible =>
        rw [hsee] at hcons
        exact found_cons hcons hrest
      | visible =>
        have hfound := found_seen v current (by simp [hsee]) hrest
        rw [hsee] at hfound
        exact hfound
      | contested =>
        have hfound := found_seen v current (by simp [hsee]) hrest
        rw [hsee] at hfound
        exact hfound

theorem delivers_scan (ht : db.Active t) (s : TableScan) (k : Nat) (current : Option Version) :
    Delivers t db (.scan s) 1 false
      (scanFrom (db.reader t) s ((db.catalog.table s.table).versions.toList.drop k))
      (.tableScan { s with opened := some (t, db.snapshotOf t), cursor := k, current }) := by
  induction hlen : ((db.catalog.table s.table).versions.toList.drop k).length
    using Nat.strongRecOn generalizing k current with
  | ind size ih =>
    have hnext : ∀ m ≥ 1,
        Found t db { s with opened := some (t, db.snapshotOf t) }
          (db.catalog.table s.table).versions
          ((db.catalog.table s.table).versions.toList.drop k)
          ((Operator.tableScan { s with
            opened := some (t, db.snapshotOf t), cursor := k, current }).nextIn m .empty
              (db.phase t true)) := by
      intro m hm
      obtain ⟨m, rfl⟩ := Nat.exists_eq_add_of_le' hm
      rw [Operator.nextIn, TableScan.next]
      simp only [Database.phase_catalog]
      exact seek_found ht _ { s with opened := some (t, db.snapshotOf t) } k current (Nat.le_refl _)
    have hstarted : ∀ started, (QueryTree.scan s).Runs (db.reader t) t started
        (.tableScan { s with opened := some (t, db.snapshotOf t), cursor := k, current }) →
        started = true := by
      intro started hruns
      cases hruns with
      | scan s' opened cursor current hs => exact hs (by simp)
    have hruns : ∀ k current, (QueryTree.scan s).Runs (db.reader t) t true
        (.tableScan { s with opened := some (t, db.snapshotOf t), cursor := k, current }) :=
      fun k current => .scan s _ k current fun _ => rfl
    cases hstream : scanFrom (db.reader t) s ((db.catalog.table s.table).versions.toList.drop k) with
    | done =>
      intro m hm started hruns'
      obtain rfl := hstarted started hruns'
      rcases hnext m hm with ⟨k', _, hturn⟩ | ⟨_, _, _, h, _⟩ | ⟨_, _, _, h, _⟩
      · exact ⟨_, hturn, hruns k' none, trivial⟩
      · cases hstream.symm.trans h
      · cases hstream.symm.trans h
    | fail e =>
      intro m hm started hruns'
      obtain rfl := hstarted started hruns'
      rcases hnext m hm with ⟨_, h, _⟩ | ⟨k', current', e', h, hturn⟩ | ⟨_, _, _, h, _⟩
      · cases hstream.symm.trans h
      · cases hstream.symm.trans h
        exact ⟨_, hturn, hruns k' current', trivial⟩
      · cases hstream.symm.trans h
    | row v c rest =>
      intro m hm started hruns'
      obtain rfl := hstarted started hruns'
      rcases hnext m hm with ⟨_, h, _⟩ | ⟨_, _, _, h, _⟩ | ⟨k', w, c', h, hturn, hless⟩
      · cases hstream.symm.trans h
      · cases hstream.symm.trans h
      · cases hstream.symm.trans h
        exact ⟨_, hturn, hruns k' (some w), rfl, ih _ (hlen ▸ hless) k' (some w) rfl⟩
    | touch rest =>
      rcases hnext 1 (Nat.le_refl 1) with ⟨_, h, _⟩ | ⟨_, _, _, h, _⟩ | ⟨_, _, _, h, _⟩
      · cases hstream.symm.trans h
      · cases hstream.symm.trans h
      · cases hstream.symm.trans h

/-! ## Filters and renamed rows -/

private theorem runs_filter_input {condition : Expr} {policy : ConflictPolicy} {started : Bool}
    (h : (QueryTree.filter condition policy q).Runs (db.reader t) t started
      (.predicate condition policy [op])) : q.Runs (db.reader t) t started op := by
  cases h with
  | filter _ _ h => exact h

private theorem nextIn_predicate_end {condition : Expr} {policy : ConflictPolicy} {db db' : Database}
    {op' : Operator} {answer : Except ExecError Step}
    (hrun : op.nextIn m .empty db = ⟨answer, op', db'⟩)
    (hend : ∀ c, answer ≠ .ok (.of c)) :
    (Operator.predicate condition policy [op]).nextIn (m + 1) .empty db =
      ⟨answer, .predicate condition policy [op'], db'⟩ := by
  rw [Operator.nextIn, hrun]
  cases answer with
  | error e => rfl
  | ok step =>
    cases step with
    | done => rfl
    | row => exact absurd rfl (hend false)
    | contested => exact absurd rfl (hend true)

private theorem nextIn_predicate_row {condition : Expr} {policy : ConflictPolicy}
    {db db' : Database} {op' : Operator} {v : RowView} {c : Bool}
    (hrun : op.nextIn m .empty db = .ok (.of c) op' db') (hcurrent : op'.current = .ok v) :
    (Operator.predicate condition policy [op]).nextIn (m + 1) .empty db =
      match (RowView.joined v .empty).holds condition with
      | .error e => .fail e (.predicate condition policy [op']) db'
      | .ok matched =>
        if matched || TableScan.surfaces policy (.of c) then
          .ok (.of c) (.predicate condition policy [op']) db'
        else (Operator.predicate condition policy [op']).nextIn m .empty db' := by
  rw [Operator.nextIn, hrun]
  cases c <;> simp only [Turn.ok, Step.of, hcurrent, Except.bind] <;> rfl

private theorem calls_filter_end (condition : Expr) (policy : ConflictPolicy)
    (hend : ∀ c, answer ≠ .ok (.of c))
    (h : Calls t db q n f answer op fun _ => True) :
    Calls t db (.filter condition policy q) (n + 1) f answer (.predicate condition policy [op])
      fun _ => True := by
  have hnext : ∀ m op' db db', op.nextIn m .empty db = ⟨answer, op', db'⟩ → True →
      (Operator.predicate condition policy [op]).nextIn (m + 1) .empty db =
        ⟨answer, .predicate condition policy [op'], db'⟩ :=
    fun m op' db db' hrun _ => nextIn_predicate_end hrun hend
  apply calls_lift hnext
    (fun _ hruns => runs_filter_input hruns)
    (fun _ _ _ hruns' => .filter condition policy hruns') (fun _ _ => trivial) h

theorem delivers_filter (condition : Expr) (policy : ConflictPolicy)
    (h : Delivers t db q n f s op) :
    Delivers t db (.filter condition policy q) (n + s.length + 1) f
      (s.sift policy fun v => (RowView.joined v .empty).holds condition)
      (.predicate condition policy [op]) := by
  induction s generalizing op f with
  | done => exact calls_filter_end condition policy (fun c h => Step.of_ne_done c (by simpa using h.symm)) h
  | fail e => exact calls_filter_end condition policy (fun c h => by cases h) h
  | touch rest ih => exact ih h
  | row v c rest ih =>
    have hsplit : ∀ m ≥ n + (rest.length + 1) + 1, ∃ k, m = k + 1 ∧ n ≤ k ∧ n + rest.length + 1 ≤ k :=
      fun m hm => ⟨m - 1, by omega, by omega, by omega⟩
    rw [Stream.sift_row]
    cases hholds : (RowView.joined v .empty).holds condition with
    | error e =>
      intro m hm started hruns
      obtain ⟨k, rfl, hk, _⟩ := hsplit m hm
      obtain ⟨op', hrun, hruns', hcurrent, _⟩ := h k hk started (runs_filter_input hruns)
      refine ⟨_, ?_, .filter condition policy hruns', trivial⟩
      rw [nextIn_predicate_row hrun hcurrent, hholds]
      rfl
    | ok matched =>
      simp only
      split
      · rename_i hpass
        intro m hm started hruns
        obtain ⟨k, rfl, hk, _⟩ := hsplit m hm
        obtain ⟨op', hrun, hruns', hcurrent, hrest⟩ := h k hk started (runs_filter_input hruns)
        have hnext := ih hrest
        refine ⟨_, ?_, .filter condition policy hruns', hcurrent,
          delivers_mono (by simp only [Stream.length]; omega) hnext⟩
        rw [nextIn_predicate_row hrun hcurrent, hholds]
        simp only [if_pos hpass]
        rfl
      · rename_i hpass
        have hless : n + rest.length + 1 ≤ n + (Stream.row v c rest).length + 1 := by
          simp only [Stream.length]
          omega
        rw [← Bool.or_false f]
        refine delivers_of_forward hless ?_
        intro m hm started hruns
        obtain ⟨k, rfl, hk, hk'⟩ := hsplit m hm
        obtain ⟨op', hrun, hruns', hcurrent, hrest⟩ := h k hk started (runs_filter_input hruns)
        refine ⟨k, hk', _, .filter condition policy hruns', ?_, ih hrest⟩
        rw [nextIn_predicate_row hrun hcurrent, hholds]
        simp only [if_neg hpass]

theorem delivers_map (parent : Operator → Operator) (g : RowView → RowView)
    (hnext : ∀ m op db, (parent op).nextIn (m + 1) .empty db = (op.nextIn m .empty db).under parent)
    (hcurrent : ∀ op, (parent op).current = op.current.map g)
    (hdown : ∀ started op, r.Runs (db.reader t) t started (parent op) →
      q.Runs (db.reader t) t started op)
    (hup : ∀ started op, q.Runs (db.reader t) t started op →
      r.Runs (db.reader t) t started (parent op))
    (h : Delivers t db q n f s op) :
    Delivers t db r (n + 1) f (s.map fun v c => (g v, c)) (parent op) := by
  have hlift : ∀ {answer f} {op : Operator} {after after' : Operator → Prop},
      (∀ op', after op' → after' (parent op')) → Calls t db q n f answer op after →
      Calls t db r (n + 1) f answer (parent op) after' := by
    intro answer f op after after' hafter hcalls
    apply calls_lift _ (fun started => hdown started op) (fun started op' _ => hup _ op') hafter hcalls
    intro m op' db db' hrun _
    rw [hnext, hrun]
    rfl
  induction s generalizing op f with
  | done => exact hlift (fun _ h => h) h
  | fail e => exact hlift (fun _ h => h) h
  | row v c rest ih =>
    apply hlift _ h
    intro op' hop'
    refine ⟨?_, ih hop'.2⟩
    rw [hcurrent, hop'.1]
    rfl
  | touch rest ih => exact ih h

/-! ## Buffers -/

theorem delivers_replay (parent : Buffer → Operator) (g : RowView → RowView) (kind : OperatorKind)
    {rows : Array (Row × Step)} (hproper : ∀ r ∈ rows.toList, r.2 ≠ .done)
    (hnext : ∀ m b db, (parent b).nextIn (m + 1) .empty db = Operator.replay b parent db)
    (hcurrent : ∀ b, (parent b).current = (Operator.ownedRow kind b.row?).map g)
    (hruns : ∀ started b b', b.rows = rows → b'.rows = rows →
      q.Runs (db.reader t) t started (parent b) → q.Runs (db.reader t) t started (parent b'))
    (b : Buffer) (hb : b.rows = rows) :
    Delivers t db q 1 false ((Stream.replay (rows.toList.drop b.position)).map fun v c => (g v, c))
      (parent b) := by
  induction hlist : rows.toList.drop b.position generalizing b with
  | nil =>
    intro m hm started hop
    obtain ⟨m, rfl⟩ := Nat.exists_eq_add_of_le' hm
    have hnone : b.rows[b.position]? = none := by
      rw [hb, Array.getElem?_eq_none_iff]
      simpa using hlist
    rw [Bool.or_false]
    refine ⟨_, ?_, hruns started b { b with current := none } hb hb hop, trivial⟩
    rw [hnext, Operator.replay, Buffer.next, hnone]
    rfl
  | cons r rest ih =>
    intro m hm started hop
    obtain ⟨m, rfl⟩ := Nat.exists_eq_add_of_le' hm
    have hsome : b.rows[b.position]? = some r := by
      rw [hb, ← Array.getElem?_toList, ← List.head?_drop, hlist]
      rfl
    have hstep : Step.of (r.2 = .contested) = r.2 :=
      Step.of_eq_contested (hproper r (List.mem_of_mem_drop (hlist ▸ List.mem_cons_self)))
    rw [Bool.or_false]
    refine ⟨_, ?_, hruns started b { b with
      position := b.position + 1, current := some b.position } hb hb hop, ?_, ?_⟩
    · rw [hnext, Operator.replay, Buffer.next, hsome]
      simp only [hstep]
      rfl
    · rw [hcurrent, Buffer.row?]
      simp only [Option.bind_some, hsome, Option.map_some]
      rfl
    · refine ih { b with position := b.position + 1, current := some b.position } hb ?_
      rw [← List.drop_drop, hlist]
      rfl

/-! ## Joins -/

/-- What opening an operator leads to: a failure, or an operator that delivers its stream. -/
def Opens (t : TxHandle) (db : Database) (q : QueryTree) (started : Bool) (turn : Turn Unit) : Prop :=
  turn.db = db.phase t (started || q.touches (db.reader t)) ∧
    q.Runs (db.reader t) t (started || q.touches (db.reader t)) turn.op ∧
    match q.stream (db.reader t) with
    | .error e => turn.answer = .error e
    | .ok s => turn.answer = .ok () ∧ Delivers t db q (q.fuel (db.reader t)) false s turn.op

section

variable {left right : Operator} {lv : RowView} {k : Nat}

private theorem runs_join_inputs {state : JoinState} {started : Bool}
    (h : (QueryTree.join q r).Runs (db.reader t) t started (.join left right state)) :
    q.Runs (db.reader t) t started left ∧ r.Runs (db.reader t) t started right := by
  cases h with
  | join _ hl hr => exact ⟨hl, hr⟩

private theorem nextIn_join_right {op' : Operator} {db db' : Database} {step : Step} {lc : Bool}
    (hrun : right.nextIn m .empty db = .ok step op' db') (hstep : step ≠ .done) :
    (Operator.join left right { tx := some t, leftStep := some (.of lc) }).nextIn (m + 1) .empty db =
      .ok ((Step.of lc).combine step)
        (.join left op' { tx := some t, leftStep := some (.of lc) }) db' := by
  rw [Operator.nextIn, hrun]
  cases step with
  | row => rfl
  | contested => rfl
  | done => exact absurd rfl hstep

/-- While a left row is paired, the join delivers the pairs left, and then those of the other left
rows. -/
private theorem delivers_pairs {u rest : Stream} (lc : Bool) (hleft : left.current = .ok lv)
    (hright : Delivers t db r n f u right) (hnk : n ≤ k)
    (hrest : ∀ right, Delivers t db (.join q r) k false rest (.join left right { tx := some t })) :
    Delivers t db (.join q r) (k + 1) f ((u.map fun rv rc => (.joined lv rv, lc || rc)).append rest)
      (.join left right { tx := some t, leftStep := some (.of lc) }) := by
  induction u generalizing right f with
  | done =>
    rw [← Bool.or_false f]
    refine delivers_of_forward (Nat.le_succ k) ?_
    intro m hm started hruns
    obtain ⟨m, rfl⟩ := Nat.exists_eq_add_of_le' (Nat.le_of_add_left_le hm)
    have hm' : k ≤ m := Nat.le_of_succ_le_succ hm
    obtain ⟨hl, hr⟩ := runs_join_inputs hruns
    obtain ⟨op', hrun, hruns', _⟩ := hright m (Nat.le_trans hnk hm') started hr
    have hl' := runs_later f hl
    refine ⟨m, hm', _, .join _ hl' hruns', ?_, hrest op'⟩
    rw [Operator.nextIn, hrun]
  | fail e =>
    intro m hm started hruns
    obtain ⟨m, rfl⟩ := Nat.exists_eq_add_of_le' (Nat.le_of_add_left_le hm)
    have hm' : k ≤ m := Nat.le_of_succ_le_succ hm
    obtain ⟨hl, hr⟩ := runs_join_inputs hruns
    obtain ⟨op', hrun, hruns', _⟩ := hright m (Nat.le_trans hnk hm') started hr
    have hl' := runs_later f hl
    refine ⟨.join left op' { tx := some t, leftStep := some (.of lc) }, ?_, .join _ hl' hruns', trivial⟩
    rw [Operator.nextIn, hrun]
    rfl
  | row rv rc u ih =>
    intro m hm started hruns
    obtain ⟨m, rfl⟩ := Nat.exists_eq_add_of_le' (Nat.le_of_add_left_le hm)
    have hm' : k ≤ m := Nat.le_of_succ_le_succ hm
    obtain ⟨hl, hr⟩ := runs_join_inputs hruns
    obtain ⟨op', hrun, hruns', hcurrent, hu⟩ := hright m (Nat.le_trans hnk hm') started hr
    have hl' := runs_later f hl
    refine ⟨_, ?_, .join _ hl' hruns', ?_, ih hu⟩
    · rw [nextIn_join_right hrun (Step.of_ne_done rc), Step.combine_of]
      rfl
    · rw [Operator.current, hleft, hcurrent]
      rfl
  | touch u ih => exact ih hright

/-- A join delivers, for each row of its left input, the pairs with every row of the right one. -/
theorem delivers_join (hopens : ∀ op started, r.Runs (db.reader t) t started op →
      ∀ m ≥ r.fuel (db.reader t), Opens t db r started (op.openIn m t (db.phase t started)))
    (hl : Delivers t db q n f s left) :
    Delivers t db (.join q r) (2 * s.length + n + r.fuel (db.reader t) + 1) f
      (s.joinWith (r.touches (db.reader t)) (r.stream (db.reader t)))
      (.join left right { tx := some t }) := by
  induction s generalizing left right f with
  | done =>
    intro m hm started hruns
    obtain ⟨m, rfl⟩ := Nat.exists_eq_add_of_le' (Nat.le_of_add_left_le hm)
    obtain ⟨hleft, hright⟩ := runs_join_inputs hruns
    obtain ⟨op', hrun, hruns', _⟩ := hl m (by simp only [Stream.length] at hm; omega) started hleft
    have hright' := runs_later f hright
    refine ⟨.join op' right { tx := some t }, ?_, .join _ hruns' hright', trivial⟩
    rw [Operator.nextIn, hrun]
    rfl
  | fail e =>
    intro m hm started hruns
    obtain ⟨m, rfl⟩ := Nat.exists_eq_add_of_le' (Nat.le_of_add_left_le hm)
    obtain ⟨hleft, hright⟩ := runs_join_inputs hruns
    obtain ⟨op', hrun, hruns', _⟩ := hl m (by simp only [Stream.length] at hm; omega) started hleft
    have hright' := runs_later f hright
    refine ⟨.join op' right { tx := some t }, ?_, .join _ hruns' hright', trivial⟩
    rw [Operator.nextIn, hrun]
    rfl
  | row v c rest ih =>
    have hstep : ∀ m ≥ 2 * (rest.length + 1) + n + r.fuel (db.reader t) + 1, ∃ k, m = k + 1 ∧
        n ≤ k ∧ r.fuel (db.reader t) ≤ k ∧ 2 * rest.length + n + r.fuel (db.reader t) + 2 ≤ k :=
      fun m hm => ⟨m - 1, by omega, by omega, by omega, by omega⟩
    have hless : 2 * rest.length + n + r.fuel (db.reader t) + 2 ≤
        2 * (Stream.row v c rest).length + n + r.fuel (db.reader t) + 1 := by
      rw [Stream.length]
      omega
    -- The call meets the left row, opens the right input again and goes on from there.
    have hopened : Delivers t db (.join q r) (2 * (Stream.row v c rest).length + n +
        r.fuel (db.reader t) + 1) (f || r.touches (db.reader t))
        ((Stream.pairs v c (r.stream (db.reader t))).append
          (rest.joinWith (r.touches (db.reader t)) (r.stream (db.reader t))))
        (.join left right { tx := some t }) := by
      cases hstream : r.stream (db.reader t) with
      | error e =>
        show Calls t db _ _ _ (.error e) _ _
        intro m hm started hruns
        obtain ⟨k, rfl, hn, hfuel, _⟩ := hstep m hm
        obtain ⟨hleft, hright⟩ := runs_join_inputs hruns
        obtain ⟨op', hrun, hruns', _, _⟩ := hl k hn started hleft
        have hright' := runs_later f hright
        obtain ⟨hdb'', hruns'', hanswer⟩ := hopens right.close _ (runs_close hright') k hfuel
        rw [hstream] at hanswer
        have hleft' := runs_later (r.touches (db.reader t)) hruns'
        rw [← Bool.or_assoc, ← hdb'']
        refine ⟨.join op' _ { tx := some t }, ?_, .join _ hleft' hruns'', trivial⟩
        rw [Operator.nextIn, hrun]
        cases c <;> simp only [Step.of, hanswer] <;> rfl
      | ok u =>
        rw [← Bool.or_false (f || _)]
        refine delivers_of_forward hless ?_
        intro m hm started hruns
        obtain ⟨k, rfl, hn, hfuel, hk⟩ := hstep m hm
        obtain ⟨hleft, hright⟩ := runs_join_inputs hruns
        obtain ⟨op', hrun, hruns', hcurrent, hrest⟩ := hl k hn started hleft
        have hright' := runs_later f hright
        obtain ⟨hdb'', hruns'', hanswer⟩ := hopens right.close _ (runs_close hright') k hfuel
        rw [hstream] at hanswer
        have hpairs := delivers_pairs c hcurrent hanswer.2 (by omega) fun right' =>
          ih hrest
        rw [hstream] at hpairs
        have hleft' := runs_later (r.touches (db.reader t)) hruns'
        rw [← Bool.or_assoc, ← hdb'']
        rw [hdb'']
        refine ⟨k, hk, _, .join _ hleft' hruns'', ?_, hpairs⟩
        rw [Operator.nextIn, hrun]
        cases c <;> simp only [Turn.ok, Step.of, hanswer.1, hdb''] <;> rfl
    rw [Stream.joinWith, Stream.bind, Stream.append_touchIf]
    exact delivers_touchIf hopened
  | touch rest ih => exact ih hl

end

end SnapshotSql.QueryTree
