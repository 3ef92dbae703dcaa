import SnapshotSql.Proofs.Query.Tree
/-! # Completed queries -/

namespace SnapshotSql

def keepAll {α : Type} (test : α → Option Bool) : List α → Option (List α)
  | [] => some []
  | x :: xs => do
    let passed ← test x
    let rest ← keepAll test xs
    pure (if passed then x :: rest else rest)

theorem keepAll_eq_some {α : Type} {test : α → Option Bool} {xs ys : List α} :
    keepAll test xs = some ys ↔
      (∀ x ∈ xs, (test x).isSome) ∧ ys = xs.filter fun x => test x = some true := by
  induction xs generalizing ys with
  | nil =>
    constructor
    · rintro ⟨⟩
      exact ⟨nofun, rfl⟩
    · rintro ⟨_, rfl⟩
      rfl
  | cons x xs ih =>
    rw [keepAll, List.filter_cons]
    cases htest : test x with
    | none => simp [htest]
    | some passed =>
      simp only [Option.bind_eq_bind, Option.bind_some, Option.bind_eq_some_iff, Option.pure_def,
        Option.some.injEq, List.forall_mem_cons, htest, Option.isSome_some, true_and]
      constructor
      · rintro ⟨rest, hrest, rfl⟩
        obtain ⟨hall, rfl⟩ := ih.mp hrest
        refine ⟨hall, ?_⟩
        cases passed <;> rfl
      · rintro ⟨hall, rfl⟩
        refine ⟨_, ih.mpr ⟨hall, rfl⟩, ?_⟩
        cases passed <;> rfl

theorem keepAll_map {α β : Type} (f : α → β) (test : β → Option Bool) (xs : List α) :
    keepAll test (xs.map f) = (keepAll (fun x => test (f x)) xs).map (List.map f) := by
  induction xs with
  | nil => rfl
  | cons x xs ih =>
    rw [List.map_cons, keepAll, keepAll, ih]
    cases test (f x) with
    | none => rfl
    | some passed =>
      cases keepAll (fun x => test (f x)) xs with
      | none => rfl
      | some rest => cases passed <;> rfl

private theorem toOption_bind {α β : Type} (x : Except ExecError α) (f : α → Except ExecError β) :
    (x >>= f).toOption = x.toOption.bind fun a => (f a).toOption := by
  cases x <;> rfl

def replayed (rows : List (Row × Step)) : List (RowView × Bool) :=
  rows.map fun r => (.owned r.1, r.2 = .contested)

def pairUp (ls rs : List (RowView × Bool)) : List (RowView × Bool) :=
  ls.flatMap fun l => rs.map fun r => (.joined l.1 r.1, l.2 || r.2)

/-- What a reader comes across of a version: the version, and whether it is contested. -/
def Visibility.shown (v : Version) : Visibility → Option (Version × Bool)
  | invisible => none
  | visible => some (v, false)
  | contested => some (v, true)

/-- The versions that a reader comes across, each with whether it is contested. -/
def Reader.seen (R : Reader) (access : Access) (id : TableId) : List (Version × Bool) :=
  (R.versions id).filterMap fun v => (R.see access v).shown v

theorem Reader.mem_seen {R : Reader} {access : Access} {id : TableId} {r : Version × Bool}
    (h : r ∈ R.seen access id) :
    r.1 ∈ R.versions id ∧ R.see access r.1 = if r.2 then .contested else .visible := by
  obtain ⟨v, hv, hshown⟩ := List.mem_filterMap.mp h
  cases hsee : R.see access v with
  | invisible =>
    rw [hsee] at hshown
    cases hshown
  | visible =>
    rw [hsee] at hshown
    cases hshown
    exact ⟨hv, hsee⟩
  | contested =>
    rw [hsee] at hshown
    cases hshown
    exact ⟨hv, hsee⟩

/-- What a reader comes across for reading is visible if nothing is contested for it. -/
theorem Reader.mem_seen_read {R : Reader} (hR : ∀ v, R.see .read v ≠ .contested) {id : TableId}
    {r : Version × Bool} (h : r ∈ R.seen .read id) :
    r.1 ∈ R.versions id ∧ R.see .read r.1 = .visible ∧ r.2 = false := by
  obtain ⟨hmem, hsee⟩ := mem_seen h
  have hread : r.2 = false := by
    by_contra hcontested
    rw [if_pos (by simpa using hcontested)] at hsee
    exact hR _ hsee
  rw [hread] at hsee
  exact ⟨hmem, hsee, hread⟩

namespace Stream

/-- The rows of a stream that comes to its end. -/
def complete : Stream → Option (List (RowView × Bool))
  | done => some []
  | fail _ => none
  | row v c rest => rest.complete.map ((v, c) :: ·)
  | touch rest => rest.complete

@[simp] theorem complete_touchIf (opened : Bool) (s : Stream) :
    (s.touchIf opened).complete = s.complete := by
  cases opened <;> rfl

theorem complete_append (s t : Stream) :
    (s.append t).complete = s.complete.bind fun xs => t.complete.map (xs ++ ·) := by
  induction s with
  | done => simp [append, complete]
  | fail e => rfl
  | row v c rest ih =>
    rw [append, complete, ih, complete]
    cases rest.complete <;> cases t.complete <;> rfl
  | touch rest ih => exact ih

theorem complete_map (f : RowView → Bool → RowView × Bool) (s : Stream) :
    (s.map f).complete = s.complete.map (List.map fun r => f r.1 r.2) := by
  induction s with
  | done => rfl
  | fail e => rfl
  | row v c rest ih =>
    rw [map, complete, ih, complete]
    cases rest.complete <;> rfl
  | touch rest ih => exact ih

def passes (policy : ConflictPolicy) (test : RowView → Except ExecError Bool)
    (r : RowView × Bool) : Option Bool :=
  (test r.1).toOption.map (· || TableScan.surfaces policy (.of r.2))

theorem complete_sift (policy : ConflictPolicy) (test : RowView → Except ExecError Bool)
    (s : Stream) : (s.sift policy test).complete = s.complete.bind (keepAll (passes policy test)) := by
  induction s with
  | done => rfl
  | fail e => rfl
  | row v c rest ih =>
    rw [sift_row, complete]
    cases hrest : rest.complete with
    | none =>
      rw [hrest] at ih
      cases test v with
      | error e => rfl
      | ok passed =>
        simp only
        split
        · rw [complete, ih]
          rfl
        · rw [ih]
          rfl
    | some xs =>
      rw [hrest] at ih
      simp only [Option.map_some, Option.bind_some, keepAll, passes] at ih ⊢
      cases test v with
      | error e => rfl
      | ok passed =>
        simp only [Except.toOption, Option.map_some, Option.bind_eq_bind, Option.bind_some,
          Option.pure_def]
        split
        · rw [complete, ih]
          cases keepAll _ xs <;> rfl
        · rw [ih]
          cases keepAll _ xs <;> rfl
  | touch rest ih => exact ih

/-- The right side is read for every row of the left, so that it does not matter for no row. -/
theorem complete_joinWith (touches : Bool) (right : Except ExecError Stream) (s : Stream) :
    (s.joinWith touches right).complete = s.complete.bind fun ls =>
      if ls.isEmpty then some [] else (right.toOption.bind complete).map (pairUp ls) := by
  have hpairs : ∀ v c, (pairs v c right).complete =
      (right.toOption.bind complete).map (List.map fun r => (.joined v r.1, c || r.2)) := by
    intro v c
    cases right with
    | error e => rfl
    | ok t => exact complete_map _ t
  induction s with
  | done => rfl
  | fail e => rfl
  | row v c rest ih =>
    have hrow : (row v c rest).joinWith touches right =
        ((pairs v c right).touchIf touches).append (rest.joinWith touches right) := rfl
    rw [hrow, complete_append, complete_touchIf, hpairs, ih, complete]
    cases rest.complete with
    | none => cases right.toOption.bind complete <;> rfl
    | some ls =>
      simp only [Option.bind_some, Option.map_some, List.isEmpty_cons]
      cases right.toOption.bind complete with
      | none => rfl
      | some rs =>
        cases ls with
        | nil => simp [pairUp]
        | cons l ls => simp [pairUp]
  | touch rest ih => exact ih

theorem complete_fold {σ : Type} (f : σ → RowView → Step → Except ExecError σ) (acc : σ)
    (s : Stream) : (s.fold f acc).toOption = s.complete.bind fun xs =>
      (xs.foldlM (fun acc r => f acc r.1 (.of r.2)) acc).toOption := by
  induction s generalizing acc with
  | done => rfl
  | fail e => rfl
  | row v c rest ih =>
    rw [fold, complete]
    cases hacc : f acc v (.of c) with
    | error e =>
      cases rest.complete with
      | none => rfl
      | some xs =>
        simp only [Option.map_some, Option.bind_some, List.foldlM_cons, hacc]
        rfl
    | ok acc' =>
      simp only
      rw [ih]
      cases rest.complete with
      | none => rfl
      | some xs =>
        simp only [Option.map_some, Option.bind_some, List.foldlM_cons, hacc]
        rfl
  | touch rest ih => exact ih acc

theorem complete_replay (rows : List (Row × Step)) :
    (replay rows).complete = some (replayed rows) := by
  induction rows with
  | nil => rfl
  | cons r rows ih =>
    rw [replay, complete, ih]
    rfl

theorem complete_ofVersions (R : Reader) (s : TableScan) :
    (ofVersions (R.see s.access) s.view (R.versions s.table)).complete =
      some ((R.seen s.access s.table).map fun r => (s.view r.1, r.2)) := by
  rw [Reader.seen]
  induction R.versions s.table with
  | nil => rfl
  | cons v vs ih =>
    rw [ofVersions, List.filterMap_cons]
    cases hsee : R.see s.access v with
    | invisible => exact ih
    | visible =>
      simp only [complete, ih]
      rfl
    | contested =>
      simp only [complete, ih]
      rfl

end Stream

namespace QueryTree

/-- The rows of a query that comes to its end. -/
def completed (R : Reader) (q : QueryTree) : Option (List (RowView × Bool)) :=
  (q.stream R).toOption.bind Stream.complete

variable (R : Reader)

theorem completed_scan (s : TableScan) : (scan s).completed R =
    keepAll (Stream.passes s.policy fun v => (RowView.joined v .empty).holdsAll s.predicates)
      ((R.seen s.access s.table).map fun r => (s.view r.1, r.2)) := by
  show (Stream.ofScan R s).complete = _
  rw [Stream.ofScan, Stream.complete_sift, Stream.complete_ofVersions]
  rfl

theorem completed_filter (condition : Expr) (policy : ConflictPolicy) (q : QueryTree) :
    (filter condition policy q).completed R = (q.completed R).bind
      (keepAll (Stream.passes policy fun v => (RowView.joined v .empty).holds condition)) := by
  rw [completed, stream, toOption_bind, completed]
  cases q.stream R with
  | error e => rfl
  | ok s => exact Stream.complete_sift policy _ s

theorem completed_project (items : List SelectItem) (q : QueryTree) :
    (project items q).completed R =
      (q.completed R).map (List.map fun r => (.projected items r.1, r.2)) := by
  rw [completed, stream, toOption_bind, completed]
  cases q.stream R with
  | error e => rfl
  | ok s => exact Stream.complete_map _ s

theorem completed_rename (qualifier : String) (q : QueryTree) :
    (rename qualifier q).completed R =
      (q.completed R).map (List.map fun r => (.qualified qualifier r.1, r.2)) := by
  rw [completed, stream, toOption_bind, completed]
  cases q.stream R with
  | error e => rfl
  | ok s => exact Stream.complete_map _ s

theorem completed_join (left right : QueryTree) : (join left right).completed R =
    (left.completed R).bind fun ls =>
      if ls.isEmpty then some [] else (right.completed R).map (pairUp ls) := by
  rw [completed, stream, toOption_bind, completed]
  cases left.stream R with
  | error e => rfl
  | ok s => exact Stream.complete_joinWith _ _ s

theorem completed_join_eq_some {R : Reader} {left right : QueryTree} {out : List (RowView × Bool)} :
    (join left right).completed R = some out ↔ ∃ ls, left.completed R = some ls ∧
      (ls = [] ∧ out = [] ∨ ls ≠ [] ∧ ∃ rs, right.completed R = some rs ∧ out = pairUp ls rs) := by
  rw [completed_join, Option.bind_eq_some_iff]
  refine exists_congr fun ls => and_congr_right fun _ => ?_
  cases ls with
  | nil => simp [eq_comm]
  | cons l ls =>
    rw [if_neg (by simp), Option.map_eq_some_iff]
    simp only [reduceCtorEq, false_and, false_or, ne_eq, not_false_eq_true, true_and,
      eq_comm (a := out)]

private theorem completed_buffered {σ : Type} (f : σ → RowView → Step → Except ExecError σ) (acc : σ)
    (out : σ → Except ExecError (Array (Row × Step))) (x : Except ExecError Stream) :
    (do let s ← x
        let a ← s.fold f acc
        let rows ← out a
        pure (Stream.replay rows.toList) : Except ExecError Stream).toOption.bind Stream.complete =
      (x.toOption.bind Stream.complete).bind fun rs =>
        (rs.foldlM (fun acc r => f acc r.1 (.of r.2)) acc >>= out).toOption.map fun rows =>
          replayed rows.toList := by
  cases x with
  | error e => rfl
  | ok s =>
    have hrows : ∀ rs : List (RowView × Bool),
        ((rs.foldlM (fun acc r => f acc r.1 (.of r.2)) acc).toOption.bind fun a =>
          (do let rows ← out a
              pure (Stream.replay rows.toList) : Except ExecError Stream).toOption).bind
            Stream.complete =
          (rs.foldlM (fun acc r => f acc r.1 (.of r.2)) acc >>= out).toOption.map fun rows =>
            replayed rows.toList := by
      intro rs
      cases rs.foldlM (fun acc r => f acc r.1 (.of r.2)) acc with
      | error e => rfl
      | ok a =>
        simp only [Except.toOption, Option.bind_some, bind, Except.bind]
        cases out a with
        | error e => rfl
        | ok rows => exact Stream.complete_replay rows.toList
    show Option.bind (s.fold f acc >>= _).toOption Stream.complete = s.complete.bind _
    rw [toOption_bind, Stream.complete_fold, Option.bind_assoc, Option.bind_assoc]
    exact congrArg _ (funext fun rs => by rw [← hrows rs, Option.bind_assoc])

private theorem completed_gathered {σ : Type} (f : σ → RowView → Step → Except ExecError σ) (acc : σ)
    (out : σ → Array (Row × Step)) (x : Except ExecError Stream) :
    (do let s ← x
        let a ← s.fold f acc
        pure (Stream.replay (out a).toList) : Except ExecError Stream).toOption.bind Stream.complete =
      (x.toOption.bind Stream.complete).bind fun rs =>
        (rs.foldlM (fun acc r => f acc r.1 (.of r.2)) acc).toOption.map fun a =>
          replayed (out a).toList := by
  refine (completed_buffered f acc (fun a => .ok (out a)) x).trans (congrArg _ (funext fun rs => ?_))
  cases rs.foldlM (fun acc r => f acc r.1 (.of r.2)) acc <;> rfl

theorem completed_aggregate (groupBy : List Expr) (calls : List AggregateCall) (q : QueryTree) :
    (aggregate groupBy calls q).completed R = (q.completed R).bind fun rs =>
      (rs.foldlM (fun groups r => Group.feedGroups groupBy calls groups r.1 (.of r.2))
        #[]).toOption.map fun groups =>
          replayed (Group.outputs groupBy calls groups).toList :=
  completed_gathered (Group.feedGroups groupBy calls) #[] (Group.outputs groupBy calls) (q.stream R)

theorem completed_sort (keys : List SortKey) (q : QueryTree) :
    (sort keys q).completed R = (q.completed R).bind fun rs =>
      (rs.foldlM (fun rows r => Operator.collectKeyed keys {} rows r.1 (.of r.2)) #[] >>=
        fun keyed => KeyedRow.sorted keys keyed.toList).toOption.map fun rows =>
          replayed rows.toList :=
  completed_buffered (Operator.collectKeyed keys {}) #[]
    (fun keyed => KeyedRow.sorted keys keyed.toList) (q.stream R)

theorem completed_sort_eq_some {R : Reader} {keys : List SortKey} {q : QueryTree}
    {out : List (RowView × Bool)} (h : (sort keys q).completed R = some out) :
    ∃ rs keyed rows, q.completed R = some rs ∧
      rs.foldlM (fun rows r => Operator.collectKeyed keys {} rows r.1 (.of r.2)) #[] = .ok keyed ∧
      KeyedRow.sorted keys keyed.toList = .ok rows ∧ out = replayed rows.toList := by
  rw [completed_sort] at h
  obtain ⟨rs, hrs, h⟩ := Option.bind_eq_some_iff.mp h
  obtain ⟨rows, hrows, rfl⟩ := Option.map_eq_some_iff.mp h
  obtain ⟨keyed, hkeyed, hsorted⟩ := bind_eq_ok.mp (toOption_eq_some.mp hrows)
  exact ⟨rs, keyed, rows, hrs, hkeyed, hsorted, rfl⟩

theorem completed_cached (q : QueryTree) : q.cached.completed R = (q.completed R).bind fun rs =>
    (rs.foldlM (fun rows r => Operator.collectRow {} rows r.1 (.of r.2)) #[]).toOption.map fun rows =>
      replayed rows.toList :=
  completed_gathered (Operator.collectRow {}) #[] id (q.stream R)

end QueryTree

end SnapshotSql
