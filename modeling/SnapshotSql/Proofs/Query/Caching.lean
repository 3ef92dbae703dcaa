import SnapshotSql.Proofs.Query.Completed
import SnapshotSql.Proofs.Query.Planned
import SnapshotSql.Proofs.Row.Alike
/-! # Buffered scans -/

namespace SnapshotSql

/-! ## Rows in pairs -/

def Paired (A : RowView → RowView → Prop) : List (RowView × Bool) → List (RowView × Bool) → Prop :=
  List.Forall₂ fun r r' => A r.1 r'.1 ∧ r.2 = r'.2

theorem rel_bind {α β γ δ : Type} {r : α → β → Prop} {r' : γ → δ → Prop} {x : Option α}
    {y : Option β} {f : α → Option γ} {g : β → Option δ} (h : Option.Rel r x y)
    (hfg : ∀ a b, r a b → Option.Rel r' (f a) (g b)) : Option.Rel r' (x.bind f) (y.bind g) := by
  cases h with
  | none => exact .none
  | some h => exact hfg _ _ h

theorem rel_self {α : Type} {r : α → α → Prop} (hr : ∀ a, r a a) (x : Option α) :
    Option.Rel r x x := by
  cases x with
  | none => exact .none
  | some a => exact .some (hr a)

namespace Paired

variable {A B C : RowView → RowView → Prop} {rs rs' ls ls' ts : List (RowView × Bool)}

theorem refl (hA : ∀ v, A v v) (rs : List (RowView × Bool)) : Paired A rs rs :=
  List.forall₂_same.mpr fun r _ => ⟨hA r.1, rfl⟩

theorem symm (hAB : ∀ {v w}, A v w → B w v) (h : Paired A rs rs') : Paired B rs' rs := by
  induction h with
  | nil => exact .nil
  | cons hr _ ih => exact .cons ⟨hAB hr.1, hr.2.symm⟩ ih

theorem trans (hABC : ∀ {u v w}, A u v → B v w → C u w) (h : Paired A ls rs) (h' : Paired B rs ts) :
    Paired C ls ts := by
  induction h generalizing ts with
  | nil =>
    cases h'
    exact .nil
  | cons hr _ ih =>
    cases h' with
    | cons hr' h' => exact .cons ⟨hABC hr.1 hr'.1, hr.2.trans hr'.2⟩ (ih h')

theorem map {f : RowView → RowView} (hf : ∀ {v w : RowView}, A v w → B (f v) (f w))
    (h : Paired A rs rs') :
    Paired B (rs.map fun r => (f r.1, r.2)) (rs'.map fun r => (f r.1, r.2)) := by
  induction h with
  | nil => exact .nil
  | cons hr _ ih => exact .cons ⟨hf hr.1, hr.2⟩ ih

theorem foldlM {σ : Type} {f : σ → RowView → Step → Except ExecError σ}
    (hf : ∀ acc {v w : RowView} step, A v w → f acc v step = f acc w step)
    (h : Paired A rs rs') (acc : σ) :
    rs.foldlM (fun acc r => f acc r.1 (.of r.2)) acc =
      rs'.foldlM (fun acc r => f acc r.1 (.of r.2)) acc := by
  induction h generalizing acc with
  | nil => rfl
  | @cons r r' rs rs' hr _ ih =>
    rw [List.foldlM_cons, List.foldlM_cons, hf acc _ hr.1, hr.2]
    cases f acc r'.1 (.of r'.2) with
    | error e => rfl
    | ok acc' => exact ih acc'

theorem keepAll {test : RowView × Bool → Option Bool}
    (htest : ∀ {v w : RowView} c, A v w → test (v, c) = test (w, c)) (h : Paired A rs rs') :
    Option.Rel (Paired A) (keepAll test rs) (keepAll test rs') := by
  induction h with
  | nil => exact .some .nil
  | @cons r r' rs rs' hr _ ih =>
    obtain ⟨v, c⟩ := r
    obtain ⟨w, c'⟩ := r'
    obtain ⟨hpair, rfl⟩ := hr
    rw [SnapshotSql.keepAll, SnapshotSql.keepAll, htest c hpair]
    refine rel_bind (rel_self (r := (· = ·)) (fun _ => rfl) _) ?_
    rintro passed _ rfl
    refine rel_bind ih ?_
    intro rest rest' hrest
    cases passed with
    | false => exact .some hrest
    | true => exact .some (.cons ⟨hpair, rfl⟩ hrest)

theorem pairUp (hA : ∀ {l l' r r'}, A l l' → A r r' → A (.joined l r) (.joined l' r'))
    (hl : Paired A ls ls') (hr : Paired A rs rs') : Paired A (pairUp ls rs) (pairUp ls' rs') := by
  induction hl with
  | nil => exact .nil
  | @cons l l' ls ls' hl _ ih =>
    have hhead : Paired A (rs.map fun r => (.joined l.1 r.1, l.2 || r.2))
        (rs'.map fun r => (.joined l'.1 r.1, l'.2 || r.2)) := by
      rw [hl.2]
      clear ih
      induction hr with
      | nil => exact .nil
      | cons hr _ ih => exact .cons ⟨hA hl.1 hr.1, congrArg (l'.2 || ·) hr.2⟩ ih
    exact List.rel_append hhead ih

theorem joined (hA : ∀ {l l' r r'}, A l l' → A r r' → A (.joined l r) (.joined l' r'))
    {x x' y y' : Option (List (RowView × Bool))} (hx : Option.Rel (Paired A) x x')
    (hy : Option.Rel (Paired A) y y') :
    Option.Rel (Paired A)
      (x.bind fun ls => if ls.isEmpty then some [] else y.map (SnapshotSql.pairUp ls))
      (x'.bind fun ls => if ls.isEmpty then some [] else y'.map (SnapshotSql.pairUp ls)) := by
  refine rel_bind hx ?_
  intro ls ls' hls
  cases hls with
  | nil => exact .some .nil
  | cons hl hls =>
    simp only [List.isEmpty_cons, Bool.false_eq_true, if_false, Option.map_eq_bind]
    refine rel_bind hy ?_
    intro rs rs' hrs
    exact .some (.pairUp hA (.cons hl hls) hrs)

end Paired

/-- Lists of rows that look alike, in the same order. -/
def LookAlike : List (RowView × Bool) → List (RowView × Bool) → Prop := Paired RowView.Alike

theorem LookAlike.refl (rs : List (RowView × Bool)) : LookAlike rs rs := Paired.refl .refl rs

theorem LookAlike.of_copies {α : Type} {rs : List (RowView × Bool)} {f : RowView × Bool → Except ExecError α}
    {held : List α} (g : α → Row × Step)
    (hf : ∀ r a, f r = .ok a → r.1.copy = .ok (g a).1 ∧ (g a).2 = .of r.2) (h : rs.mapM f = .ok held) :
    LookAlike rs (replayed (held.map g)) := by
  induction rs generalizing held with
  | nil =>
    cases h
    exact .nil
  | cons r rs ih =>
    obtain ⟨a, rest, ha, hrest, rfl⟩ := mapM_eq_ok_cons h
    obtain ⟨hcopy, hstep⟩ := hf r a ha
    refine .cons ⟨RowView.alike_copy hcopy, ?_⟩ (ih hrest)
    simp only [hstep]
    cases r.2 <;> rfl

/-! ## Queries -/

/-- The versions of every table have a value for each of its columns. -/
def Reader.Formed (c : Catalog) (R : Reader) : Prop :=
  ∀ table, ∀ v ∈ R.versions table, v.values.length = (c.table table).schema.width

namespace TableScan

def Readable (R : Reader) (s : TableScan) : Prop :=
  ∀ v ∈ R.versions s.table, ∃ row, (s.view v).copy = .ok row

/-- The scan has a name for each of its columns, and its table has these columns. -/
def Fits (c : Catalog) (s : TableScan) : Prop :=
  s.names.length = s.columns.length ∧ ∀ i ∈ s.columns, i < (c.table s.table).schema.width

theorem fits_create {c : Catalog} {table : TableId} {columns : List Nat} {access : Access}
    {predicates : List Expr} {policy : ConflictPolicy} {s : TableScan}
    (h : create c table columns access predicates policy = .ok s) : s.Fits c := by
  obtain ⟨names, rfl, hlength, hcolumns⟩ := Plan.create_eq_ok h
  refine ⟨hlength, ?_⟩
  intro i hi
  obtain ⟨k, hk⟩ := List.mem_iff_getElem?.mp hi
  obtain ⟨column, hcolumn, _⟩ := hcolumns k i hk
  exact (List.getElem?_eq_some_iff.mp hcolumn).1

theorem readable_of_fits {c : Catalog} {R : Reader} {s : TableScan} (hR : R.Formed c) (h : s.Fits c) :
    s.Readable R := by
  intro v hv
  have hwidth := hR s.table v hv
  obtain ⟨names, hnames⟩ : ∃ names, (s.view v).names = .ok names := by
    refine mapM_total fun i hi => ?_
    have hi : i < s.names.length := h.1 ▸ List.mem_range.mp hi
    exact ⟨s.names[i], by rw [view, RowView.nameAt, RowView.cellOf, List.getElem?_eq_getElem hi]⟩
  obtain ⟨values, hvalues⟩ : ∃ values, (s.view v).values = .ok values := by
    refine mapM_total fun i hi => ?_
    have hi : i < s.columns.length := List.mem_range.mp hi
    have hcolumn : s.columns[i] < v.values.length := hwidth ▸ h.2 _ (List.getElem_mem hi)
    refine ⟨v.values[s.columns[i]], ?_⟩
    rw [view, RowView.cellAt, List.getElem?_eq_getElem hi]
    simp only [Option.bind_some, List.getElem?_eq_getElem hcolumn]
  exact ⟨⟨names, values, (s.view v).rid⟩, RowView.copy_eq_ok.mpr ⟨hnames, hvalues, rfl⟩⟩

end TableScan

namespace QueryTree

def uncached : QueryTree → QueryTree
  | scan s => scan s
  | literal items => literal items
  | join left right => join left.uncached right.uncached
  | filter condition policy input => filter condition policy input.uncached
  | project items input => project items input.uncached
  | aggregate groupBy calls input => aggregate groupBy calls input.uncached
  | sort keys input => sort keys input.uncached
  | rename qualifier input => rename qualifier input.uncached
  | cached (scan s) => scan s
  | cached input => cached input.uncached

private theorem uncached_cached (q : QueryTree) :
    (∃ s, q = scan s ∧ q.cached.uncached = scan s) ∨ q.cached.uncached = q.uncached.cached := by
  cases q with
  | scan s => exact .inl ⟨s, rfl, rfl⟩
  | _ => exact .inr rfl

private theorem foldlM_collectRow {rs : List (RowView × Bool)}
    (h : ∀ r ∈ rs, ∃ row, r.1.copy = .ok row) :
    ∃ rows : List (Row × Step), LookAlike rs (replayed rows) ∧
      rs.foldlM (fun rows r => Operator.collectRow {} rows r.1 (.of r.2)) #[] = .ok rows.toArray := by
  have hcopies : ∀ r ∈ rs, ∃ copy, r.1.copy.map (fun row => (row, Step.of r.2)) = .ok copy := by
    intro r hr
    obtain ⟨row, hrow⟩ := h r hr
    exact ⟨(row, .of r.2), by rw [hrow]; rfl⟩
  obtain ⟨rows, hrows⟩ := mapM_total hcopies
  refine ⟨rows, ?_, ?_⟩
  · rw [← List.map_id rows]
    refine LookAlike.of_copies id (fun r a ha => ?_) hrows
    obtain ⟨row, hrow, rfl⟩ := map_eq_ok.mp ha
    exact ⟨hrow, rfl⟩
  · have hfold := foldlM_push hrows #[]
    rw [Array.empty_append] at hfold
    refine (foldlM_congr (fun r _ acc => ?_) #[]).trans hfold
    rw [Operator.collectRow]
    cases r.1.copy <;> rfl

/-- The rows of a scan can be copied, so that the buffer above it does not fail. -/
theorem completed_cached_scan {R : Reader} {s : TableScan} (h : s.Readable R) :
    Option.Rel LookAlike ((scan s).completed R) ((scan s).cached.completed R) := by
  rw [completed_cached]
  cases hrs : (scan s).completed R with
  | none => exact .none
  | some rs =>
    have hread : ∀ r ∈ rs, ∃ row, r.1.copy = .ok row := by
      intro r hr
      rw [completed_scan, keepAll_eq_some] at hrs
      rw [hrs.2] at hr
      obtain ⟨seen, hseen, rfl⟩ := List.mem_map.mp (List.mem_filter.mp hr).1
      exact h _ (Reader.mem_seen hseen).1
    obtain ⟨rows, halike, hfold⟩ := foldlM_collectRow hread
    rw [Option.bind_some, hfold]
    exact .some halike

private theorem rel_buffered {σ : Type} {f : σ → RowView → Step → Except ExecError σ} {acc : σ}
    (out : Except ExecError σ → Option (List (RowView × Bool)))
    {x y : Option (List (RowView × Bool))}
    (hf : ∀ acc {v w : RowView} step, v.Alike w → f acc v step = f acc w step)
    (h : Option.Rel LookAlike x y) :
    Option.Rel LookAlike
      (x.bind fun rs => out (rs.foldlM (fun acc r => f acc r.1 (.of r.2)) acc))
      (y.bind fun rs => out (rs.foldlM (fun acc r => f acc r.1 (.of r.2)) acc)) := by
  refine rel_bind h ?_
  intro rs rs' hrs
  rw [Paired.foldlM hf hrs]
  exact rel_self .refl _

private theorem feedGroups_alike {groupBy : List Expr} {calls : List AggregateCall}
    (groups : Array Group) {v w : RowView} (step : Step) (h : v.Alike w) :
    Group.feedGroups groupBy calls groups v step = Group.feedGroups groupBy calls groups w step := by
  have hfeed : ∀ (as : List Accumulator) (calls : List AggregateCall),
      Group.feedAll v as calls = Group.feedAll w as calls := by
    intro as
    induction as with
    | nil => exact fun _ => rfl
    | cons a as ih =>
      intro calls
      cases calls with
      | nil => rfl
      | cons call calls =>
        rw [Group.feedAll, Group.feedAll, ih]
        cases call.arg with
        | none => rfl
        | some arg => simp only [h.eval]
  simp only [Group.feedGroups, Group.feed, hfeed, h.evalAll]

private theorem collectKeyed_alike {keys : List SortKey} (rows : Array KeyedRow) {v w : RowView}
    (step : Step) (h : v.Alike w) :
    Operator.collectKeyed keys {} rows v step = Operator.collectKeyed keys {} rows w step := by
  simp only [Operator.collectKeyed, KeyedRow.ofView, h.evalAll, h.copy]

private theorem collectRow_alike (rows : Array (Row × Step)) {v w : RowView} (step : Step)
    (h : v.Alike w) : Operator.collectRow {} rows v step = Operator.collectRow {} rows w step := by
  simp only [Operator.collectRow, h.copy]

private theorem rel_map {f : RowView → RowView}
    (hf : ∀ {v w : RowView}, v.Alike w → (f v).Alike (f w))
    {x y : Option (List (RowView × Bool))} (h : Option.Rel LookAlike x y) :
    Option.Rel LookAlike (x.map (List.map fun r => (f r.1, r.2)))
      (y.map (List.map fun r => (f r.1, r.2))) := by
  cases h with
  | none => exact .none
  | some h => exact .some (Paired.map hf h)

/-- Without the buffers above its scans a query yields rows that look like those it yields with them,
and neither or both come to their end. -/
theorem completed_uncached {R : Reader} (q : QueryTree) (h : ∀ s ∈ q.scans, s.Readable R) :
    Option.Rel LookAlike (q.uncached.completed R) (q.completed R) := by
  induction q with
  | scan s =>
    exact rel_self .refl _
  | literal items =>
    exact rel_self .refl _
  | filter condition policy q ih =>
    rw [uncached, completed_filter, completed_filter]
    refine rel_bind (ih h) ?_
    intro rs rs' hrows
    refine hrows.keepAll ?_
    intro v w c halike
    rw [Stream.passes, Stream.passes, RowView.holds_joined_empty, RowView.holds_joined_empty,
      halike.holds]
  | project items q ih =>
    rw [uncached, completed_project, completed_project]
    exact rel_map (RowView.Alike.projected items) (ih h)
  | rename qualifier q ih =>
    rw [uncached, completed_rename, completed_rename]
    exact rel_map (RowView.Alike.qualified qualifier) (ih h)
  | join left right ihl ihr =>
    rw [uncached, completed_join, completed_join]
    exact Paired.joined RowView.Alike.joined (ihl fun s hs => h s (List.mem_append_left _ hs))
      (ihr fun s hs => h s (List.mem_append_right _ hs))
  | aggregate groupBy calls q ih =>
    rw [uncached, completed_aggregate, completed_aggregate]
    exact rel_buffered
      (fun read => read.toOption.map fun groups => replayed (Group.outputs groupBy calls groups).toList)
      (fun groups {_ _} step => feedGroups_alike groups step) (ih h)
  | sort keys q ih =>
    rw [uncached, completed_sort, completed_sort]
    exact rel_buffered (fun read : Except ExecError (Array KeyedRow) =>
        (read >>= fun keyed => KeyedRow.sorted keys keyed.toList).toOption.map fun rows =>
          replayed rows.toList)
      (fun rows {_ _} step => collectKeyed_alike rows step) (ih h)
  | cached q ih =>
    rcases uncached_cached q with ⟨s, rfl, hs⟩ | hq
    · rw [hs]
      exact completed_cached_scan (h s List.mem_cons_self)
    · rw [hq, completed_cached, completed_cached]
      exact rel_buffered (fun read => read.toOption.map fun rows => replayed rows.toList)
        (fun rows {_ _} step => collectRow_alike rows step) (ih h)

end QueryTree

/-! ## Plans -/

namespace Plan

mutual

def uncached (c : Catalog) : Plan → Plan
  | ⟨.cached, [⟨.tableGet table columns access predicates, [], tables⟩], _⟩ =>
    ⟨.tableGet table columns access predicates, [], tables⟩
  | ⟨node, children, _⟩ => build c node (uncachedAll c children)

def uncachedAll (c : Catalog) : List Plan → List Plan
  | [] => []
  | p :: ps => p.uncached c :: uncachedAll c ps

end

variable {c : Catalog} {options : PlannerOptions} {p : Plan}

private theorem tree_scan (policy : ConflictPolicy) (table : TableId) (columns : List Nat)
    (predicates : List Expr) (tables : List String) :
    (tree c policy ⟨.tableGet table columns .read predicates, [], tables⟩).map QueryTree.uncached =
      tree c policy ⟨.tableGet table columns .read predicates, [], tables⟩ := by
  rw [tree]
  cases PlanNode.checkConditions .tableGet predicates with
  | error e => rfl
  | ok _ => cases TableScan.create c table columns .read predicates policy <;> rfl

theorem tree_uncached (policy : ConflictPolicy) (hp : p.Reads) :
    (p.uncached c).tree c policy = (p.tree c policy).map QueryTree.uncached := by
  induction hp with
  | scan table columns predicates tables => exact (tree_scan policy table columns predicates tables).symm
  | @filter p condition tables _ ih =>
    simp only [uncached, uncachedAll, build, tree, ih]
    cases p.tree c policy with
    | error e => rfl
    | ok q => cases PlanNode.checkConditions .predicate [condition] <;> rfl
  | literal items tables => rfl
  | @project p items tables _ ih =>
    simp only [uncached, uncachedAll, build, tree, ih]
    cases p.tree c policy <;> rfl
  | @join l r tables _ _ ihl ihr =>
    simp only [uncached, uncachedAll, build, tree, ihl, ihr]
    cases l.tree c policy with
    | error e => rfl
    | ok ql => cases r.tree c policy <;> rfl
  | @aggregate p groupBy calls tables _ ih =>
    simp only [uncached, uncachedAll, build, tree, ih]
    cases p.tree c policy <;> rfl
  | @sort p keys tables _ ih =>
    simp only [uncached, uncachedAll, build, tree, ih]
    cases p.tree c policy <;> rfl
  | @rename p qualifier tables _ ih =>
    simp only [uncached, uncachedAll, build, tree, ih]
    cases p.tree c policy <;> rfl
  | cached table columns predicates tables tables' =>
    have hinput : tree c policy ⟨.cached, [⟨.tableGet table columns .read predicates, [], tables⟩],
        tables'⟩ = (tree c policy ⟨.tableGet table columns .read predicates, [], tables⟩).map
          .cached := rfl
    rw [uncached, hinput, tree]
    cases PlanNode.checkConditions .tableGet predicates with
    | error e => rfl
    | ok _ => cases TableScan.create c table columns .read predicates policy <;> rfl

/-! ## Planning -/

private theorem grouped_uncached (s : Select) (p : Plan) :
    grouped c s (p.uncached c) = (grouped c s p).map (uncached c) := by
  simp only [grouped]
  cases List.findSome? _ _ with
  | some ref => rfl
  | none =>
    cases List.find? _ _ with
    | some key => rfl
    | none =>
      cases s.having with
      | none => rfl
      | some having =>
        simp only [bind, Except.bind, pure, Except.pure]
        cases having.checkCondition .having <;> rfl

private theorem finish_uncached (s : Select) (rest : List Expr) (p : Plan) :
    finish c s rest (p.uncached c) = (finish c s rest p).map (uncached c) := by
  have habove : ∀ p : Plan, (do
      let plan ← if s.isAggregate then grouped c s (p.uncached c) else pure (p.uncached c)
      let plan := if s.orderBy.isEmpty then plan else build c (.sort s.orderBy) [plan]
      pure (build c (.project s.items) [plan]) : Except PlanError Plan) = (do
      let plan ← if s.isAggregate then grouped c s p else pure p
      let plan := if s.orderBy.isEmpty then plan else build c (.sort s.orderBy) [plan]
      pure (build c (.project s.items) [plan])).map (uncached c) := by
    intro p
    rw [grouped_uncached]
    cases s.isAggregate with
    | false => cases s.orderBy.isEmpty <;> rfl
    | true =>
      simp only [if_true]
      cases grouped c s p with
      | error e => rfl
      | ok p' => cases s.orderBy.isEmpty <;> rfl
  unfold finish
  cases Expr.ofConjuncts? rest with
  | none => exact habove p
  | some condition => exact habove (filtered c condition p)

private theorem applyOn_uncached (on : Option Expr) (p : Plan) :
    applyOn c on (p.uncached c) = (applyOn c on p).map (uncached c) := by
  cases on with
  | none => rfl
  | some on =>
    simp only [applyOn]
    cases on.checkCondition .on <;> rfl

private theorem attachTable_uncached (left : Option Plan) (table : TableId) (columns : List Nat)
    (predicates : List Expr) :
    attach c { options with cacheInner := false } true (left.map (uncached c))
        (leaf c (.tableGet table columns .read predicates)) =
      (attach c { options with cacheInner := true } true left
        (leaf c (.tableGet table columns .read predicates))).uncached c := by
  cases left <;> rfl

private theorem attachQuery_uncached (left : Option Plan) (qualifier : String) (p : Plan) :
    attach c { options with cacheInner := false } false (left.map (uncached c))
        (build c (.subQuery qualifier) [p.uncached c]) =
      (attach c { options with cacheInner := true } false left
        (build c (.subQuery qualifier) [p])).uncached c := by
  cases left <;> rfl

mutual

theorem ofSelect_uncached : ∀ s : Select,
    ofSelect c { options with cacheInner := false } s =
      (ofSelect c { options with cacheInner := true } s).map (uncached c)
  | ⟨items, sources, filter, groupBy, having, orderBy⟩ => by
    have hsourceless : ∀ s, ofSourceless c s = (ofSourceless c s).map (uncached c) := by
      intro s
      unfold ofSourceless
      split
      · rfl
      · split <;> rfl
    rw [ofSelect, ofSelect]
    simp only
    split
    · rfl
    · split
      · exact hsourceless _
      · simp only [bind, Except.bind]
        cases Select.resolve _ _ with
        | error e => rfl
        | ok needs =>
          cases checkFilter filter with
          | error e => rfl
          | ok _ =>
            have hsources := ofSources_uncached sources none
              (needs.zip (splitFilter (sources.map (ScopeEntry.ofFromItem c)) filter).pushed)
            rw [Option.map_none] at hsources
            simp only [hsources]
            cases ofSources c { options with cacheInner := true } none _ sources with
            | error e => rfl
            | ok joined =>
              cases joined with
              | none => exact hsourceless _
              | some joins => exact finish_uncached _ _ joins

theorem ofSources_uncached : ∀ (sources : List FromItem) (left : Option Plan)
    (parts : List (List Nat × List Expr)),
    ofSources c { options with cacheInner := false } (left.map (uncached c)) parts sources =
      (ofSources c { options with cacheInner := true } left parts sources).map
        (Option.map (uncached c))
  | [], left, parts => by
    rw [ofSources, ofSources]
    rfl
  | ⟨.table id, on⟩ :: rest, left, parts => by
    rw [ofSources, ofSources]
    simp only [attachTable_uncached, applyOn_uncached]
    cases applyOn c on _ with
    | error e => rfl
    | ok plan => exact ofSources_uncached rest (some plan) parts.tail
  | ⟨.query select qualifier, on⟩ :: rest, left, parts => by
    rw [ofSources, ofSources, ofSelect_uncached select]
    cases ofSelect c { options with cacheInner := true } select with
    | error e => rfl
    | ok inner =>
      simp only [Except.map, bind, Except.bind, attachQuery_uncached, applyOn_uncached]
      cases applyOn c on _ with
      | error e => rfl
      | ok plan => exact ofSources_uncached rest (some plan) parts.tail

end

end Plan

end SnapshotSql
