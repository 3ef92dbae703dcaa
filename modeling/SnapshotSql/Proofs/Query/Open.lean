import SnapshotSql.Proofs.Query.Deliver
/-! # Opening queries -/

namespace SnapshotSql

theorem Stream.map_self (s : Stream) : s.map (fun v c => (id v, c)) = s := by
  induction s with
  | done => rfl
  | fail e => rfl
  | row v c rest ih => rw [map, ih, id]
  | touch rest ih => rw [map, ih]

namespace QueryTree

variable {t : TxHandle} {db : Database} {q : QueryTree} {op : Operator} {n m : Nat} {s : Stream}
  {started : Bool}

section

variable {σ : Type} {next : Operator → Database → Turn Step}
  {f : Database → σ → RowView → Step → Except ExecError σ} {g : σ → RowView → Step → Except ExecError σ}

private theorem foldRows_row_error {op' : Operator} {db' : Database} {v : RowView} {c : Bool}
    {e : ExecError} {acc : σ} (h : next op db = .ok (.of c) op' db') (hv : op'.current = .ok v)
    (hread : f db' acc v (.of c) = .error e) :
    Operator.foldRows next f (n + 1) acc op db = .fail e op' db' := by
  rw [Operator.foldRows, h]
  cases c with
  | false =>
    have hread : f db' acc v .row = .error e := hread
    simp only [Turn.ok, Step.of, Bool.false_eq_true, if_false, hv, Except.bind, hread]
  | true =>
    have hread : f db' acc v .contested = .error e := hread
    simp only [Turn.ok, Step.of, if_true, hv, Except.bind, hread]

private theorem foldRows_row_ok {op' : Operator} {db' : Database} {v : RowView} {c : Bool}
    {acc acc' : σ} (h : next op db = .ok (.of c) op' db') (hv : op'.current = .ok v)
    (hread : f db' acc v (.of c) = .ok acc') :
    Operator.foldRows next f (n + 1) acc op db = Operator.foldRows next f n acc' op' db' := by
  rw [Operator.foldRows, h]
  cases c with
  | false =>
    have hread : f db' acc v .row = .ok acc' := hread
    simp only [Turn.ok, Step.of, Bool.false_eq_true, if_false, hv, Except.bind, hread]
  | true =>
    have hread : f db' acc v .contested = .ok acc' := hread
    simp only [Turn.ok, Step.of, if_true, hv, Except.bind, hread]

theorem foldRows_delivers {touches : Bool}
    (hnext : ∀ op started, q.Runs (db.reader t) t started op →
      ∃ k ≥ n, next op (db.phase t started) = op.nextIn k .empty (db.phase t started))
    (hf : ∀ started, f (db.phase t started) = g) (rounds : Nat) (acc : σ) (hs : s.length < rounds)
    (h : Delivers t db q n touches s op) (hruns : q.Runs (db.reader t) t started op) :
    ∃ op', q.Runs (db.reader t) t (started || (touches || s.foldTouches g acc)) op' ∧
      Operator.foldRows next f rounds acc op (db.phase t started) =
        ⟨s.fold g acc, op', db.phase t (started || (touches || s.foldTouches g acc))⟩ := by
  induction s generalizing rounds acc op started touches with
  | done =>
    obtain ⟨rounds, rfl⟩ := Nat.exists_eq_add_of_lt hs
    obtain ⟨k, hk, hcall⟩ := hnext op started hruns
    obtain ⟨op', hrun, hruns', _⟩ := h k hk started hruns
    rw [Stream.foldTouches, Bool.or_false]
    refine ⟨op', hruns', ?_⟩
    rw [Operator.foldRows, hcall, hrun]
    rfl
  | fail e =>
    obtain ⟨rounds, rfl⟩ := Nat.exists_eq_add_of_lt hs
    obtain ⟨k, hk, hcall⟩ := hnext op started hruns
    obtain ⟨op', hrun, hruns', _⟩ := h k hk started hruns
    rw [Stream.foldTouches, Bool.or_false]
    refine ⟨op', hruns', ?_⟩
    rw [Operator.foldRows, hcall, hrun]
    rfl
  | row v c rest ih =>
    obtain ⟨rounds, rfl⟩ := Nat.exists_eq_add_of_le' (Nat.lt_of_le_of_lt (Nat.zero_le _) hs)
    obtain ⟨k, hk, hcall⟩ := hnext op started hruns
    obtain ⟨op', hrun, hruns', hcurrent, hrest⟩ := h k hk started hruns
    have hread : f (db.phase t (started || touches)) acc v (.of c) = g acc v (.of c) := by rw [hf]
    rw [Stream.fold, Stream.foldTouches]
    cases hg : g acc v (.of c) with
    | error e =>
      simp only [Bool.or_false]
      exact ⟨op', hruns', foldRows_row_error (hcall.trans hrun) hcurrent (hread.trans hg)⟩
    | ok acc' =>
      have hfold := ih rounds acc' (Nat.lt_of_succ_lt_succ hs) hrest hruns'
      rw [Bool.false_or, Bool.or_assoc] at hfold
      rw [foldRows_row_ok (hcall.trans hrun) hcurrent (hread.trans hg)]
      exact hfold
  | touch rest ih =>
    have hfold := ih rounds acc hs h hruns
    rw [Bool.true_or] at hfold
    rw [Stream.foldTouches, Bool.or_true]
    exact hfold

theorem foldRows_opens (hf : ∀ started, f (db.phase t started) = g) (acc : σ) {turn : Turn Unit}
    (hfuel : q.fuel (db.reader t) ≤ n) (hsize : q.size (db.reader t) < n)
    (hopen : Opens t db q started turn) (hok : turn.answer = .ok ()) :
    ∃ s op', q.stream (db.reader t) = .ok s ∧
      q.Runs (db.reader t) t
        (started || (q.touches (db.reader t) || s.foldTouches g acc)) op' ∧
      Operator.foldRows (Operator.nextIn n .empty) f n acc turn.op turn.db =
        ⟨s.fold g acc, op', db.phase t
          (started || (q.touches (db.reader t) || s.foldTouches g acc))⟩ := by
  obtain ⟨hdb, hruns, hanswer⟩ := hopen
  cases hstream : q.stream (db.reader t) with
  | error e =>
    rw [hstream] at hanswer
    cases hok.symm.trans hanswer
  | ok s =>
    rw [hstream] at hanswer
    have hlen := Nat.lt_of_le_of_lt (length_stream _ q hstream) hsize
    obtain ⟨op', hruns', hfold⟩ := foldRows_delivers (fun op _ _ => ⟨n, hfuel, rfl⟩)
      hf n acc hlen hanswer.2 hruns
    rw [Bool.false_or, Bool.or_assoc] at hruns' hfold
    rw [hdb]
    exact ⟨s, op', rfl, hruns', hfold⟩

theorem stream_of_opens_error {turn : Turn Unit} {e : ExecError} (hopen : Opens t db q started turn)
    (herror : turn.answer = .error e) : q.stream (db.reader t) = .error e := by
  have hanswer := hopen.2.2
  cases hstream : q.stream (db.reader t) with
  | error e' =>
    rw [hstream] at hanswer
    cases herror.symm.trans hanswer
    rfl
  | ok s =>
    rw [hstream] at hanswer
    cases herror.symm.trans hanswer.1

end

/-! ## Operators with one input -/

section

variable {r : QueryTree} {turn : Turn Unit}

private theorem opens_under {parent : Operator → Operator} {g : Stream → Stream}
    (htouches : r.touches (db.reader t) = q.touches (db.reader t))
    (hstream : r.stream (db.reader t) = q.stream (db.reader t) >>= fun s => pure (g s))
    (hruns : ∀ started op, q.Runs (db.reader t) t started op →
      r.Runs (db.reader t) t started (parent op))
    (hdelivers : ∀ s op, s.length ≤ q.size (db.reader t) →
      Delivers t db q (q.fuel (db.reader t)) false s op →
      Delivers t db r (r.fuel (db.reader t)) false (g s) (parent op))
    (hopen : Opens t db q started turn) : Opens t db r started (turn.under parent) := by
  obtain ⟨hdb, hq, hanswer⟩ := hopen
  rw [← htouches] at hdb hq
  refine ⟨hdb, hruns _ _ hq, ?_⟩
  rw [hstream]
  cases hs : q.stream (db.reader t) with
  | error e =>
    rw [hs] at hanswer
    exact hanswer
  | ok s =>
    rw [hs] at hanswer
    exact ⟨hanswer.1, hdelivers s _ (length_stream _ q hs) hanswer.2⟩

private theorem opens_afterReading {σ : Type}
    {f : Database → σ → RowView → Step → Except ExecError σ}
    {g : σ → RowView → Step → Except ExecError σ} {acc : σ} {parent : Operator → Operator}
    {go : σ → Operator → Database → Turn Unit} (rows : σ → Except ExecError (Array (Row × Step)))
    (htouches : r.touches (db.reader t) =
      (q.touches (db.reader t) || Stream.readTouches g acc (q.stream (db.reader t))))
    (hstream : r.stream (db.reader t) = q.stream (db.reader t) >>= fun s =>
      s.fold g acc >>= fun a => rows a >>= fun out => pure (.replay out.toList))
    (hruns : ∀ started op, q.Runs (db.reader t) t started op →
      r.Runs (db.reader t) t started (parent op))
    (hf : ∀ started, f (db.phase t started) = g)
    (hgo : ∀ (s : Stream) a op started out, s.fold g acc = .ok a →
      q.Runs (db.reader t) t started op → rows a = .ok out →
      ∃ op', go a op (db.phase t started) = .ok () op' (db.phase t started) ∧
        r.Runs (db.reader t) t started op' ∧
        Delivers t db r (r.fuel (db.reader t)) false (.replay out.toList) op')
    (hrefused : ∀ a op started e, q.Runs (db.reader t) t started op → rows a = .error e →
      ∃ op', go a op (db.phase t started) = .fail e op' (db.phase t started) ∧
        r.Runs (db.reader t) t started op')
    (hfuel : q.fuel (db.reader t) ≤ n) (hsize : q.size (db.reader t) < n)
    (hopen : Opens t db q started turn) :
    Opens t db r started (Operator.afterReading turn
      (Operator.foldRows (Operator.nextIn n .empty) f n acc) parent go) := by
  cases hanswer : turn.answer with
  | error e =>
    have hs := stream_of_opens_error hopen hanswer
    have hsame : r.touches (db.reader t) = q.touches (db.reader t) := by
      rw [htouches, hs, Stream.readTouches, Bool.or_false]
    rw [Operator.afterReading, hanswer]
    refine ⟨?_, ?_, ?_⟩
    · rw [hsame]
      exact hopen.1
    · rw [hsame]
      exact hruns _ _ hopen.2.1
    · rw [hstream, hs]
      rfl
  | ok _ =>
    obtain ⟨s, op', hs, hruns', hfold⟩ := foldRows_opens hf acc hfuel hsize hopen hanswer
    rw [hs, Stream.readTouches] at htouches
    rw [← htouches] at hruns' hfold
    rw [Operator.afterReading, hanswer]
    simp only [hfold]
    cases hacc : s.fold g acc with
    | error e =>
      refine ⟨rfl, hruns _ _ hruns', ?_⟩
      rw [hstream, hs]
      simp only [bind, Except.bind, hacc]
      rfl
    | ok a =>
      cases hrows : rows a with
      | error e =>
        obtain ⟨op'', hrun, hruns''⟩ := hrefused a op' _ e hruns' hrows
        simp only [hrun]
        refine ⟨rfl, hruns'', ?_⟩
        rw [hstream, hs]
        simp only [bind, Except.bind, hacc, hrows]
        rfl
      | ok out =>
        obtain ⟨op'', hrun, hruns'', hdelivers⟩ := hgo s a op' _ out hacc hruns' hrows
        simp only [hrun]
        refine ⟨rfl, hruns'', ?_⟩
        rw [hstream, hs]
        simp only [bind, Except.bind, hacc, hrows]
        exact ⟨rfl, hdelivers⟩

end

/-! ## Buffered steps -/

private def Proper (rows : List (Row × Step)) : Prop := ∀ r ∈ rows, r.2 ≠ .done

private theorem proper_outputs (groupBy : List Expr) (calls : List AggregateCall)
    (groups : Array Group) : Proper (Group.outputs groupBy calls groups).toList :=
  fun r hr => Group.outputs_ne_done groupBy calls groups r (Array.mem_toList_iff.mp hr)

private theorem proper_collectRow {s : Stream} {rows : Array (Row × Step)}
    (h : s.fold (Operator.collectRow {}) #[] = .ok rows) : Proper rows.toList := by
  have hsteps : ∀ r ∈ rows, r.2 ≠ .done :=
    Stream.fold_forall (p := fun rows : Array (Row × Step) => ∀ r ∈ rows, r.2 ≠ .done)
      (fun _ _ c _ hacc => Operator.step_collectRow (p := (· ≠ .done)) hacc (Step.of_ne_done c)) s #[]
      rows (by simp) h
  exact fun r hr => hsteps r (Array.mem_toList_iff.mp hr)

private theorem proper_sorted {keys : List SortKey} {s : Stream} {rows : Array KeyedRow}
    {out : Array (Row × Step)} (h : s.fold (Operator.collectKeyed keys {}) #[] = .ok rows)
    (hsorted : KeyedRow.sorted keys rows.toList = .ok out) : Proper out.toList := by
  have hsteps : ∀ k ∈ rows, k.step ≠ .done :=
    Stream.fold_forall (p := fun rows : Array KeyedRow => ∀ k ∈ rows, k.step ≠ .done)
      (fun _ _ c _ hacc => KeyedRow.step_collectKeyed (p := (· ≠ .done)) hacc (Step.of_ne_done c)) s
      #[] rows (by simp) h
  exact fun r hr =>
    KeyedRow.step_sorted (p := (· ≠ .done)) hsteps hsorted r (Array.mem_toList_iff.mp hr)

/-! ## All operators -/

private theorem opens_scan (ht : db.Active t) (s : TableScan) (opened : Option (TxHandle × Snapshot))
    (cursor : Nat) (current : Option Version) (hm : 1 ≤ m) :
    Opens t db (.scan s) started
      ((Operator.tableScan { s with opened, cursor, current }).openIn m t (db.phase t started)) := by
  obtain ⟨m, rfl⟩ := Nat.exists_eq_add_of_le' hm
  have hdelivers := delivers_scan ht s 0 none
  rw [Operator.openIn]
  simp only [Database.readSnapshot_phase ht]
  refine ⟨?_, ?_, rfl, hdelivers⟩
  · rw [touches, Bool.or_true]
    rfl
  · rw [touches, Bool.or_true]
    exact .scan s _ _ _ fun _ => rfl

private theorem opens_literal (items : List SelectItem) (row : Option StringList) (hm : 1 ≤ m) :
    Opens t db (.literal items) started
      ((Operator.project items [] row).openIn m t (db.phase t started)) := by
  obtain ⟨m, rfl⟩ := Nat.exists_eq_add_of_le' hm
  have hproper : Proper StringList.singleEmptyRow.buffer.rows.toList := by
    intro r hr
    cases List.mem_singleton.mp hr
    exact nofun
  have hreplay : Delivers t db (.literal items) 1 false _ _ := delivers_replay
    (fun b => .project items [] (some { StringList.singleEmptyRow with buffer := b }))
    (.projected items) .stringList hproper (fun m b db => by rw [Operator.nextIn])
    (fun b => by rw [Operator.current]) (fun _ _ _ _ _ _ => .literal items _)
    StringList.singleEmptyRow.buffer rfl
  rw [Operator.openIn]
  refine ⟨?_, .literal items _, rfl, hreplay⟩
  rw [touches, Bool.or_false]
  rfl

private theorem fuel_of_pass {rows inner : Nat} (h : Operator.passBound rows inner ≤ m) :
    ∃ k, m = k + 1 ∧ inner ≤ k ∧ rows < k := by
  rw [Operator.passBound] at h
  exact ⟨m - 1, by omega, by omega, by omega⟩

private theorem delivers_buffer {r : QueryTree} (parent : Buffer → Operator) (kind : OperatorKind)
    {rows : Array (Row × Step)} (hproper : Proper rows.toList)
    (hnext : ∀ m b db, (parent b).nextIn (m + 1) .empty db = Operator.replay b parent db)
    (hcurrent : ∀ b, (parent b).current = Operator.ownedRow kind b.row?)
    (hruns : ∀ started b b', b.rows = rows → b'.rows = rows →
      r.Runs (db.reader t) t started (parent b) → r.Runs (db.reader t) t started (parent b'))
    (hfuel : 1 ≤ r.fuel (db.reader t)) :
    Delivers t db r (r.fuel (db.reader t)) false (.replay rows.toList) (parent { rows }) := by
  have hid : ∀ b, (parent b).current = (Operator.ownedRow kind b.row?).map id := by
    intro b
    rw [hcurrent, Except.map_id]
    rfl
  have hreplay : Delivers t db r 1 false _ _ :=
    delivers_replay parent id kind hproper hnext hid hruns { rows } rfl
  rw [Stream.map_self] at hreplay
  exact delivers_mono hfuel hreplay

private theorem one_le_pass (rows inner : Nat) : 1 ≤ Operator.passBound rows inner := by
  rw [Operator.passBound]
  omega

private theorem delivers_cached {rows : Array (Row × Step)} (op : Operator)
    (owner : Option TxHandle) (hproper : Proper rows.toList) :
    Delivers t db q.cached (q.cached.fuel (db.reader t)) false (.replay rows.toList)
      (.cached op { rows } owner) := by
  have hruns : ∀ (started : Bool) (b b' : Buffer), b.rows = rows → b'.rows = rows →
      q.cached.Runs (db.reader t) t started (.cached op b owner) →
      q.cached.Runs (db.reader t) t started (.cached op b' owner) := by
    intro started b b' hb hb' h
    cases h with
    | cached _ _ h hrows hs =>
      rw [hb, ← hb'] at hrows
      exact .cached b' owner h hrows hs
  exact delivers_buffer (fun b => .cached op b owner) .cached hproper
    (fun m b db => by rw [Operator.nextIn]) (fun b => by rw [Operator.current]) hruns (one_le_pass _ _)

private theorem opens_cached (b : Buffer) (owner : Option TxHandle)
    (hopens : ∀ {op m started}, q.Runs (db.reader t) t started op → q.fuel (db.reader t) ≤ m →
      Opens t db q started (op.openIn m t (db.phase t started)))
    (hruns : q.Runs (db.reader t) t started op)
    (hb : owner = some t → q.collected (db.reader t) = .ok b.rows)
    (hs : owner = some t → q.cached.touches (db.reader t) = true → started = true)
    (hm : q.cached.fuel (db.reader t) ≤ m) :
    Opens t db q.cached started ((Operator.cached op b owner).openIn m t (db.phase t started)) := by
  obtain ⟨k, rfl, hfuel, hsize⟩ := fuel_of_pass hm
  rw [Operator.openIn]
  by_cases howner : owner = some t
  · -- The buffer was filled by this transaction, and holds what the input would yield again.
    obtain ⟨s, hstream, hrows⟩ := bind_eq_ok.mp (hb howner)
    have hsame : (started || q.cached.touches (db.reader t)) = started := by
      rw [Bool.or_eq_left_iff_imp]
      exact hs howner
    rw [if_pos howner]
    refine ⟨?_, ?_, ?_⟩
    · rw [hsame]
      rfl
    · rw [hsame]
      exact .cached b.rewind owner hruns hb hs
    · simp only [stream, hstream, bind, Except.bind, hrows]
      exact ⟨rfl, delivers_cached op owner (proper_collectRow hrows)⟩
  · have hopen := hopens hruns hfuel
    rw [if_neg howner]
    cases hanswer : (op.openIn k t (db.phase t started)).answer with
    | error e =>
      have hstream := stream_of_opens_error hopen hanswer
      have hsame : q.cached.touches (db.reader t) = q.touches (db.reader t) := by
        rw [touches, hstream, Stream.readTouches, Bool.or_false]
      simp only [hanswer]
      refine ⟨?_, ?_, ?_⟩
      · rw [hsame]
        exact hopen.1
      · rw [hsame]
        exact .cached b.rewind owner hopen.2.1 (fun h => absurd h howner) fun h => absurd h howner
      · simp only [stream, hstream, bind, Except.bind]
        rfl
    | ok _ =>
      obtain ⟨s, op', hstream, hruns', hfold⟩ :=
        foldRows_opens (f := Operator.collectRow) (g := Operator.collectRow {}) (fun _ => rfl) #[]
          hfuel hsize hopen hanswer
      have hsame : q.cached.touches (db.reader t) =
          (q.touches (db.reader t) || s.foldTouches (Operator.collectRow {}) #[]) := by
        rw [touches, hstream, Stream.readTouches]
      rw [← hsame] at hruns' hfold
      simp only [hanswer, hfold]
      cases hrows : s.fold (Operator.collectRow {}) #[] with
      | error e =>
        refine ⟨rfl, .cached b.rewind owner (runs_close hruns') (fun h => absurd h howner)
          (fun h => absurd h howner), ?_⟩
        simp only [stream, hstream, bind, Except.bind, hrows]
        rfl
      | ok rows =>
        have hcollected : q.collected (db.reader t) = .ok rows := bind_eq_ok.mpr ⟨s, hstream, hrows⟩
        refine ⟨rfl, .cached { rows } (some t) (runs_close hruns') (fun _ => hcollected)
          (fun _ h => by rw [h, Bool.or_true]), ?_⟩
        simp only [stream, hstream, bind, Except.bind, hrows]
        exact ⟨rfl, delivers_cached _ _ (proper_collectRow hrows)⟩

private theorem opens_join {r : QueryTree} {left right : Operator} (state : JoinState)
    (hopen : Opens t db q started (left.openIn n t (db.phase t started)))
    (hopens : ∀ op started, r.Runs (db.reader t) t started op → ∀ m ≥ r.fuel (db.reader t),
      Opens t db r started (op.openIn m t (db.phase t started)))
    (hright : r.Runs (db.reader t) t started right) :
    Opens t db (q.join r) started
      ((Operator.join left right state).openIn (n + 1) t (db.phase t started)) := by
  obtain ⟨hdb, hleft, hanswer⟩ := hopen
  have hright' := runs_later (q.touches (db.reader t)) hright
  rw [Operator.openIn]
  cases hs : q.stream (db.reader t) with
  | error e =>
    rw [hs] at hanswer
    rw [hanswer]
    refine ⟨hdb, .join state hleft hright', ?_⟩
    simp only [stream, hs, bind, Except.bind]
    rfl
  | ok s =>
    rw [hs] at hanswer
    rw [hanswer.1]
    refine ⟨hdb, .join { tx := some t } hleft hright', ?_⟩
    simp only [stream, hs, bind, Except.bind]
    refine ⟨rfl, delivers_mono ?_ (delivers_join hopens hanswer.2)⟩
    have hlen := length_stream _ q hs
    simp only [fuel, Operator.passBound]
    omega

theorem opens (ht : db.Active t) (hruns : q.Runs (db.reader t) t started op)
    (hm : q.fuel (db.reader t) ≤ m) :
    Opens t db q started (op.openIn m t (db.phase t started)) := by
  induction q generalizing op m started with
  | scan s =>
    cases hruns with
    | scan _ opened cursor current _ => exact opens_scan ht s opened cursor current hm
  | filter condition policy q ih =>
    cases hruns with
    | filter _ _ hruns =>
      obtain ⟨k, rfl, hfuel, _⟩ := fuel_of_pass hm
      rw [Operator.openIn]
      refine opens_under (q := q) rfl rfl (fun _ _ => .filter condition policy) (fun s op hs h => ?_)
        (ih hruns hfuel)
      refine delivers_mono ?_ (delivers_filter condition policy h)
      simp only [fuel, Operator.passBound]
      omega
  | literal items =>
    cases hruns with
    | literal _ row => exact opens_literal items row hm
  | project items q ih =>
    cases hruns with
    | project _ row hruns =>
      obtain ⟨k, rfl, hfuel, _⟩ := fuel_of_pass hm
      rw [Operator.openIn]
      refine opens_under (q := q) rfl rfl (fun _ _ => .project items row) (fun s op hs h => ?_)
        (ih hruns hfuel)
      refine delivers_mono ?_ (delivers_map (fun op => .project items [op] row) (.projected items)
        (fun m op db => by rw [Operator.nextIn]) (fun op => by rw [Operator.current])
        (fun _ _ h => by cases h; assumption) (fun _ _ => .project items row) h)
      simp only [fuel, Operator.passBound]
      omega
  | join left right ihl ihr =>
    cases hruns with
    | join state hl hr =>
      obtain ⟨k, rfl, hfuel, _⟩ := fuel_of_pass (Nat.le_of_add_right_le hm)
      exact opens_join state (ihl hl hfuel) (fun op started h m hm => ihr h hm) hr
  | aggregate groupBy calls q ih =>
    cases hruns with
    | aggregate _ _ b hruns =>
      obtain ⟨k, rfl, hfuel, hsize⟩ := fuel_of_pass hm
      rw [Operator.openIn]
      refine opens_afterReading (fun groups => .ok (Group.outputs groupBy calls groups)) rfl rfl
        (fun _ _ => .aggregate groupBy calls b) (fun _ => rfl) ?_ (fun _ _ _ _ _ h => by cases h) hfuel hsize
        (ih hruns hfuel)
      intro s groups op started out _ hop hout
      cases hout
      refine ⟨_, rfl, .aggregate groupBy calls _ hop, ?_⟩
      exact delivers_buffer (.aggregate groupBy calls op) .aggregate
        (proper_outputs groupBy calls groups) (fun m b db => by rw [Operator.nextIn])
        (fun b => by rw [Operator.current])
        (fun _ _ b' _ _ h => by cases h; exact .aggregate groupBy calls b' (by assumption))
        (one_le_pass _ _)
  | sort keys q ih =>
    cases hruns with
    | sort _ b hruns =>
      obtain ⟨k, rfl, hfuel, hsize⟩ := fuel_of_pass hm
      rw [Operator.openIn]
      refine opens_afterReading (fun rows => KeyedRow.sorted keys rows.toList) rfl rfl
        (fun _ _ => .sort keys b) (fun _ => rfl) ?_
        (fun rows op started e hop he => ⟨_, by simp only [he], .sort keys b hop⟩) hfuel hsize
        (ih hruns hfuel)
      intro s rows op started out hrows hop hout
      refine ⟨.sort keys op { rows := out }, by simp only [hout], .sort keys _ hop, ?_⟩
      exact delivers_buffer (.sort keys op) .sort (proper_sorted hrows hout)
        (fun m b db => by rw [Operator.nextIn]) (fun b => by rw [Operator.current])
        (fun _ _ b' _ _ h => by cases h; exact .sort keys b' (by assumption)) (one_le_pass _ _)
  | rename qualifier q ih =>
    cases hruns with
    | rename _ hruns =>
      obtain ⟨k, rfl, hfuel, _⟩ := fuel_of_pass hm
      rw [Operator.openIn]
      refine opens_under (q := q) rfl rfl (fun _ _ => .rename qualifier) (fun s op hs h => ?_)
        (ih hruns hfuel)
      refine delivers_mono ?_ (delivers_map (.subQuery qualifier) (.qualified qualifier)
        (fun m op db => by rw [Operator.nextIn]) (fun op => by rw [Operator.current])
        (fun _ _ h => by cases h; assumption) (fun _ _ => .rename qualifier) h)
      simp only [fuel, Operator.passBound]
      omega
  | cached q ih =>
    cases hruns with
    | cached b owner hruns hb hs => exact opens_cached b owner ih hruns hb hs hm

end QueryTree

end SnapshotSql
