import SnapshotSql.Proofs.Query.Completed
import SnapshotSql.Proofs.Row.Renumber
import SnapshotSql.Proofs.StableSort.Map
/-! # Renumbered streams -/

namespace SnapshotSql

/-- What a reader comes across, under other row ids. -/
def Reader.shown (R : Reader) (g : RowId → RowId) (access : Access) (id : TableId) :
    List (Version × Bool) :=
  (R.seen access id).map fun r => (r.1.renumber g, r.2)

namespace Stream

variable (g : RowId → RowId)

def renumber (s : Stream) : Stream := s.map fun v c => (v.renumber g, c)

private theorem renumber_append (s t : Stream) :
    (s.append t).renumber g = (s.renumber g).append (t.renumber g) := by
  induction s with
  | done => rfl
  | fail e => rfl
  | row v c rest ih => exact congrArg (row (v.renumber g) c) ih
  | touch rest ih => exact congrArg touch ih

private theorem renumber_touchIf (opened : Bool) (s : Stream) :
    (s.touchIf opened).renumber g = (s.renumber g).touchIf opened := by
  cases opened <;> rfl

private theorem renumber_sift {policy : ConflictPolicy} {test : RowView → Except ExecError Bool}
    (htest : ∀ v : RowView, test (v.renumber g) = test v) (s : Stream) :
    (s.sift policy test).renumber g = (s.renumber g).sift policy test := by
  induction s with
  | done => rfl
  | fail e => rfl
  | row v c rest ih =>
    have hrow : (row v c rest).renumber g = row (v.renumber g) c (rest.renumber g) := rfl
    rw [hrow, sift_row, sift_row, htest]
    cases test v with
    | error e => rfl
    | ok passed =>
      simp only
      split
      · exact congrArg (row (v.renumber g) c) ih
      · exact ih
  | touch rest ih => exact congrArg touch ih

private theorem renumber_map {f f' : RowView → Bool → RowView × Bool}
    (hf : ∀ v c, f' (v.renumber g) c = ((f v c).1.renumber g, (f v c).2)) (s : Stream) :
    (s.map f).renumber g = (s.renumber g).map f' := by
  induction s with
  | done => rfl
  | fail e => rfl
  | row v c rest ih =>
    have hrow : ((row v c rest).renumber g).map f' =
        row (f' (v.renumber g) c).1 (f' (v.renumber g) c).2 ((rest.renumber g).map f') := rfl
    rw [hrow, hf, ← ih]
    rfl
  | touch rest ih => exact congrArg touch ih

private theorem renumber_changed (f : RowView → RowView)
    (hf : ∀ v : RowView, f (v.renumber g) = (f v).renumber g) (s : Stream) :
    (s.map fun v c => (f v, c)).renumber g = (s.renumber g).map fun v c => (f v, c) := by
  apply renumber_map
  intro v c
  rw [hf]

private theorem renumber_joinWith (touches : Bool) (right : Except ExecError Stream) (s : Stream) :
    (s.joinWith touches right).renumber g =
      (s.renumber g).joinWith touches (right.map (renumber g)) := by
  have hpairs : ∀ l lc, (pairs l lc right).renumber g =
      pairs (l.renumber g) lc (right.map (renumber g)) := by
    intro l lc
    cases right with
    | error e => rfl
    | ok t =>
      apply renumber_map
      intro v c
      rfl
  induction s with
  | done => rfl
  | fail e => rfl
  | row v c rest ih =>
    have hrow : (row v c rest).joinWith touches right =
        ((pairs v c right).touchIf touches).append (rest.joinWith touches right) := rfl
    rw [hrow, renumber_append, renumber_touchIf, hpairs, ih]
    rfl
  | touch rest ih => exact congrArg touch ih

private theorem renumber_replay (rows : List (Row × Step)) :
    (replay rows).renumber g = replay (rows.map fun (r, step) => (r.renumber g, step)) := by
  induction rows with
  | nil => rfl
  | cons r rows ih => exact congrArg (row (.owned (r.1.renumber g)) _) ih

/-- Taking in renumbered rows, up to a change of what is collected and of the errors. -/
theorem fold_renumber {σ σ' : Type} {f : σ → RowView → Step → Except ExecError σ}
    {f' : σ' → RowView → Step → Except ExecError σ'} {k : σ → σ'} {h : ExecError → ExecError}
    (hf : ∀ acc v step, (f' (k acc) (RowView.renumber g v) step).mapError h =
      ((f acc v step).map k).mapError h) (s : Stream) (acc : σ) :
    ((s.renumber g).fold f' (k acc)).mapError h = ((s.fold f acc).map k).mapError h ∧
      (s.renumber g).foldTouches f' (k acc) = s.foldTouches f acc := by
  induction s generalizing acc with
  | done => exact ⟨rfl, rfl⟩
  | fail e => exact ⟨rfl, rfl⟩
  | touch rest ih => exact ⟨(ih acc).1, rfl⟩
  | row v c rest ih =>
    have hrow : (row v c rest).renumber g = row (v.renumber g) c (rest.renumber g) := rfl
    have hstep := hf acc v (.of c)
    rw [hrow, fold, fold, foldTouches, foldTouches]
    cases hacc : f acc v (.of c) with
    | error e =>
      cases hacc' : f' (k acc) (v.renumber g) (.of c) with
      | error e' =>
        rw [hacc, hacc'] at hstep
        exact ⟨congrArg Except.error (Except.error.inj hstep), rfl⟩
      | ok a =>
        rw [hacc, hacc'] at hstep
        cases hstep
    | ok a =>
      cases hacc' : f' (k acc) (v.renumber g) (.of c) with
      | error e' =>
        rw [hacc, hacc'] at hstep
        cases hstep
      | ok a' =>
        rw [hacc, hacc'] at hstep
        obtain rfl : a' = k a := Except.ok.inj hstep
        exact ih a

end Stream

/-! ## What is collected -/

private theorem mapError_id {ε α : Type} (x : Except ε α) : x.mapError id = x := by
  cases x <;> rfl

theorem fold_renumber_exact {σ σ' : Type} {f : σ → RowView → Step → Except ExecError σ}
    {f' : σ' → RowView → Step → Except ExecError σ'} {k : σ → σ'} (g : RowId → RowId)
    (hf : ∀ acc v step, f' (k acc) (RowView.renumber g v) step = (f acc v step).map k) (s : Stream)
    (acc : σ) :
    (s.renumber g).fold f' (k acc) = (s.fold f acc).map k ∧
      (s.renumber g).foldTouches f' (k acc) = s.foldTouches f acc := by
  have hf' : ∀ acc v step, (f' (k acc) (RowView.renumber g v) step).mapError id =
      ((f acc v step).map k).mapError id := by
    intro acc v step
    rw [hf]
  have hfold := Stream.fold_renumber g hf' s acc
  rw [mapError_id, mapError_id] at hfold
  exact hfold

private theorem feedAll_renumber (g : RowId → RowId) (view : RowView) (as : List Accumulator)
    (calls : List AggregateCall) :
    Group.feedAll (view.renumber g) as calls = Group.feedAll view as calls := by
  induction as generalizing calls with
  | nil => rfl
  | cons a as ih =>
    cases calls with
    | nil => rfl
    | cons call calls =>
      rw [Group.feedAll, Group.feedAll, ih]
      cases call.arg with
      | none => rfl
      | some arg => simp only [RowView.eval_renumber]

private theorem feedGroups_renumber (g : RowId → RowId) (groupBy : List Expr)
    (calls : List AggregateCall) (groups : Array Group) (view : RowView) (step : Step) :
    Group.feedGroups groupBy calls groups (view.renumber g) step =
      Group.feedGroups groupBy calls groups view step := by
  simp only [Group.feedGroups, Group.feed, feedAll_renumber, RowView.evalAll_renumber]

private def renumberPair (g : RowId → RowId) (r : Row × Step) : Row × Step := (r.1.renumber g, r.2)

private theorem collectRow_renumber (g : RowId → RowId) (rows : Array (Row × Step)) (view : RowView)
    (step : Step) :
    Operator.collectRow {} (rows.map (renumberPair g)) (view.renumber g) step =
      (Operator.collectRow {} rows view step).map (·.map (renumberPair g)) := by
  simp only [Operator.collectRow, RowView.copy_renumber]
  cases view.copy with
  | error e => rfl
  | ok row =>
    simp only [Except.map, bind, Except.bind, pure, Except.pure, Array.map_push]
    rfl

private def renumberKeyed (g : RowId → RowId) (r : KeyedRow) : KeyedRow :=
  { r with row := r.row.renumber g }

private theorem collectKeyed_renumber (g : RowId → RowId) (keys : List SortKey)
    (rows : Array KeyedRow) (view : RowView) (step : Step) :
    Operator.collectKeyed keys {} (rows.map (renumberKeyed g)) (view.renumber g) step =
      (Operator.collectKeyed keys {} rows view step).map (·.map (renumberKeyed g)) := by
  simp only [Operator.collectKeyed, KeyedRow.ofView, RowView.copy_renumber, RowView.evalAll_renumber]
  cases view.evalAll (keys.map (·.expr)) with
  | error e => rfl
  | ok values =>
    cases view.copy with
    | error e => rfl
    | ok row =>
      simp only [Except.map, bind, Except.bind, pure, Except.pure, Array.map_push]
      rfl

private theorem sorted_renumber (g : RowId → RowId) (keys : List SortKey) (rows : List KeyedRow) :
    KeyedRow.sorted keys (rows.map (renumberKeyed g)) =
      (KeyedRow.sorted keys rows).map (·.map (renumberPair g)) := by
  have hsort : (StableSort.sort (KeyedRow.before keys) rows).map (List.map (renumberKeyed g)) =
      StableSort.sort (KeyedRow.before keys) (rows.map (renumberKeyed g)) := by
    apply StableSort.map_sort
    intro a b
    rfl
  rw [KeyedRow.sorted, KeyedRow.sorted, ← hsort]
  cases StableSort.sort (KeyedRow.before keys) rows with
  | none => rfl
  | some arranged =>
    simp only [Option.map_some, Except.map, List.map_toArray, List.map_map]
    rfl

/-! ## Query trees -/

variable {g g' : RowId → RowId} {x x' : Except ExecError Stream}

private theorem changed_renumber {G G' : Stream → Stream}
    (hG : ∀ s s', s.renumber g = s'.renumber g' → (G s).renumber g = (G' s').renumber g')
    (hx : x.map (Stream.renumber g) = x'.map (Stream.renumber g')) :
    (do let s ← x
        pure (G s) : Except ExecError Stream).map (Stream.renumber g) =
      (do let s ← x'
          pure (G' s) : Except ExecError Stream).map (Stream.renumber g') := by
  cases x with
  | error e =>
    cases x' with
    | error e' => exact congrArg Except.error (Except.error.inj hx)
    | ok s' => cases hx
  | ok s =>
    cases x' with
    | error e' => cases hx
    | ok s' => exact congrArg Except.ok (hG s s' (Except.ok.inj hx))

private theorem buffered_renumber {σ : Type} {f : σ → RowView → Step → Except ExecError σ} {acc : σ}
    (k : (RowId → RowId) → σ → σ) (out : σ → Except ExecError (Array (Row × Step)))
    (hf : ∀ g acc v step, f (k g acc) (RowView.renumber g v) step = (f acc v step).map (k g))
    (hacc : ∀ g, k g acc = acc) (hout : ∀ g a, out (k g a) = (out a).map (·.map (renumberPair g)))
    (hx : x.map (Stream.renumber g) = x'.map (Stream.renumber g')) :
    (do let s ← x
        let a ← s.fold f acc
        let rows ← out a
        pure (Stream.replay rows.toList) : Except ExecError Stream).map (Stream.renumber g) =
      (do let s ← x'
          let a ← s.fold f acc
          let rows ← out a
          pure (Stream.replay rows.toList) : Except ExecError Stream).map (Stream.renumber g') ∧
    Stream.readTouches f acc x = Stream.readTouches f acc x' := by
  -- Either reader's part comes down to what is left of its stream under the new numbers.
  have hside : ∀ (g : RowId → RowId) (x : Except ExecError Stream),
      (do let s ← x
          let a ← s.fold f acc
          let rows ← out a
          pure (Stream.replay rows.toList) : Except ExecError Stream).map (Stream.renumber g) =
        (do let s ← x.map (Stream.renumber g)
            let a ← s.fold f acc
            let rows ← out a
            pure (Stream.replay rows.toList)) ∧
      Stream.readTouches f acc x = Stream.readTouches f acc (x.map (Stream.renumber g)) := by
    intro g x
    cases x with
    | error e => exact ⟨rfl, rfl⟩
    | ok s =>
      have hfold := fold_renumber_exact g (hf g) s acc
      rw [hacc] at hfold
      refine ⟨?_, hfold.2.symm⟩
      simp only [Except.map, bind, Except.bind, hfold.1]
      cases s.fold f acc with
      | error e => rfl
      | ok a =>
        simp only [hout]
        cases out a with
        | error e => rfl
        | ok rows =>
          simp only [Except.map, pure, Except.pure, Stream.renumber_replay, Array.toList_map]
          rfl
  constructor
  · rw [(hside g x).1, (hside g' x').1, hx]
  · rw [(hside g x).2, (hside g' x').2, hx]

private def Stream.ofShown (s : TableScan) : List (Version × Bool) → Stream
  | [] => done
  | (v, c) :: rest => row (s.view v) c (ofShown s rest)

private theorem ofScan_renumber (g : RowId → RowId) (R : Reader) (s : TableScan) :
    (Stream.ofScan R s).renumber g =
      (Stream.ofShown s (R.shown g s.access s.table)).sift s.policy fun v =>
        (RowView.joined v .empty).holdsAll s.predicates := by
  have hversions : ∀ vs : List Version,
      (Stream.ofVersions (R.see s.access) s.view vs).renumber g =
        .ofShown s ((vs.filterMap fun v => (R.see s.access v).shown v).map fun r =>
          (r.1.renumber g, r.2)) := by
    intro vs
    induction vs with
    | nil => rfl
    | cons v vs ih =>
      rw [Stream.ofVersions]
      cases hsee : R.see s.access v with
      | invisible =>
        simp only [List.filterMap_cons, hsee, Visibility.shown]
        exact ih
      | visible =>
        simp only [List.filterMap_cons, hsee, Visibility.shown]
        exact congrArg (Stream.row (s.view (v.renumber g)) false) ih
      | contested =>
        simp only [List.filterMap_cons, hsee, Visibility.shown]
        exact congrArg (Stream.row (s.view (v.renumber g)) true) ih
  rw [Stream.ofScan, Stream.renumber_sift, hversions]
  · rfl
  · intro v
    exact RowView.holdsAll_renumber g (.joined v .empty) s.predicates

namespace QueryTree

private theorem outputs_renumber (g : RowId → RowId) (groupBy : List Expr)
    (calls : List AggregateCall) (groups : Array Group) :
    (Group.outputs groupBy calls groups).map (renumberPair g) = Group.outputs groupBy calls groups := by
  rw [Group.outputs, Array.map_map]
  rfl

/-- The stream of a query depends on what its scans show, and so do the points at which it opens
them. -/
theorem stream_renumber {R R' : Reader} {g g' : RowId → RowId} (q : QueryTree)
    (h : ∀ s ∈ q.scans, R.shown g s.access s.table = R'.shown g' s.access s.table) :
    (q.stream R).map (Stream.renumber g) = (q.stream R').map (Stream.renumber g') ∧
      q.touches R = q.touches R' := by
  induction q with
  | scan s =>
    have hshown := h s List.mem_cons_self
    refine ⟨congrArg Except.ok ?_, rfl⟩
    rw [ofScan_renumber, ofScan_renumber, hshown]
  | filter condition policy q ih =>
    obtain ⟨hstream, htouches⟩ := ih h
    refine ⟨changed_renumber ?_ hstream, htouches⟩
    intro s s' hs
    have htest : ∀ (g : RowId → RowId) (v : RowView),
        ((v.renumber g).joined .empty).holds condition = (v.joined .empty).holds condition :=
      fun g v => RowView.holds_renumber g (.joined v .empty) condition
    rw [Stream.renumber_sift g (htest g), Stream.renumber_sift g' (htest g'), hs]
  | literal items => exact ⟨rfl, rfl⟩
  | project items q ih =>
    obtain ⟨hstream, htouches⟩ := ih h
    refine ⟨changed_renumber ?_ hstream, htouches⟩
    intro s s' hs
    rw [Stream.renumber_changed g (.projected items) fun _ => rfl,
      Stream.renumber_changed g' (.projected items) fun _ => rfl, hs]
  | join left right ihl ihr =>
    obtain ⟨hleft, htouches⟩ := ihl fun s hs => h s (List.mem_append_left _ hs)
    obtain ⟨hright, hright'⟩ := ihr fun s hs => h s (List.mem_append_right _ hs)
    refine ⟨changed_renumber ?_ hleft, htouches⟩
    intro s s' hs
    rw [Stream.renumber_joinWith, Stream.renumber_joinWith, hs, hright, hright']
  | aggregate groupBy calls q ih =>
    obtain ⟨hstream, htouches⟩ := ih h
    obtain ⟨hrows, hread⟩ := buffered_renumber (fun _ groups => groups)
      (fun groups => .ok (Group.outputs groupBy calls groups)) (f := Group.feedGroups groupBy calls)
      (fun g groups v step => by
        rw [feedGroups_renumber]
        cases Group.feedGroups groupBy calls groups v step <;> rfl)
      (fun _ => rfl)
      (fun g groups => congrArg Except.ok (outputs_renumber g groupBy calls groups).symm) hstream
    refine ⟨hrows, ?_⟩
    rw [touches, touches, htouches, hread]
  | sort keys q ih =>
    obtain ⟨hstream, htouches⟩ := ih h
    obtain ⟨hrows, hread⟩ := buffered_renumber (fun g rows => rows.map (renumberKeyed g))
      (fun rows : Array KeyedRow => KeyedRow.sorted keys rows.toList)
      (fun g => collectKeyed_renumber g keys) (fun _ => Array.map_empty)
      (fun g rows => by rw [Array.toList_map, sorted_renumber]) hstream
    refine ⟨hrows, ?_⟩
    rw [touches, touches, htouches, hread]
  | rename qualifier q ih =>
    obtain ⟨hstream, htouches⟩ := ih h
    refine ⟨changed_renumber ?_ hstream, htouches⟩
    intro s s' hs
    rw [Stream.renumber_changed g (.qualified qualifier) fun _ => rfl,
      Stream.renumber_changed g' (.qualified qualifier) fun _ => rfl, hs]
  | cached q ih =>
    obtain ⟨hstream, htouches⟩ := ih h
    obtain ⟨hrows, hread⟩ := buffered_renumber (fun g rows => rows.map (renumberPair g))
      (fun rows : Array (Row × Step) => .ok rows) collectRow_renumber
      (fun _ => Array.map_empty) (fun _ _ => rfl) hstream
    refine ⟨hrows, ?_⟩
    rw [touches, touches, htouches, hread]

end QueryTree

end SnapshotSql
