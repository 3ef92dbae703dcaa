import SnapshotSql.Proofs.Query.Finished
import SnapshotSql.Proofs.Query.Lookups
import SnapshotSql.Proofs.Session.Failures
/-! # Queries as sub-queries -/

namespace SnapshotSql

/-- The rows of a result, if it has any. -/
def QueryResult.rows? : QueryResult → Option (List (List Value))
  | .rows set => some set.rows
  | _ => none

/-- The selection of an output field of a sub-query. The types of references are not looked at. -/
def SelectItem.selected (qualifier : String) (types : SelectItem → DataType) (item : SelectItem) :
    SelectItem :=
  ⟨.field ⟨qualifier, item.cellName.field, types item⟩, none⟩

/-- A query for all output fields of a sub-query. -/
def Select.wrapped (qualifier : String) (types : SelectItem → DataType) (query : Select) : Select where
  items := query.items.map (·.selected qualifier types)
  sources := [⟨.query query qualifier, none⟩]
  filter := none
  groupBy := []
  having := none
  orderBy := []

/-! ## Rows -/

namespace RowView

variable {items : List SelectItem} {qualifier : String} {types : SelectItem → DataType}

theorem find_output (hnames : (items.map (·.cellName.field)).Nodup) (v : RowView) {item : SelectItem}
    (hitem : item ∈ items) : (qualified qualifier (projected items v)).find
      (.qualified qualifier item.cellName.field) = (v.eval item.expr).map some := by
  obtain ⟨k, hk, rfl⟩ := List.getElem_of_mem hitem
  have hname : ∀ j (hj : j < items.length), ((projected items v).nameAt j).map
      (fun name => CellName.qualified qualifier name.field) =
        .ok (.qualified qualifier items[j].cellName.field) := by
    intro j hj
    rw [nameAt, cellOf, List.getElem?_eq_getElem hj]
    rfl
  have hcell : (projected items v).cellAt k = v.eval items[k].expr := by
    rw [cellAt, cellOf, List.getElem?_eq_getElem hk]
    rfl
  have hbefore : ∀ j < k, ∃ name, ((projected items v).nameAt j).map
      (fun name => CellName.qualified qualifier name.field) = .ok name ∧
        name.answers (.qualified qualifier items[k].cellName.field) = false := by
    intro j hj
    have hlt := Nat.lt_trans hj hk
    have hne : items[j].cellName.field ≠ items[k].cellName.field :=
      List.pairwise_iff_getElem.mp (List.pairwise_map.mp hnames) j k hlt hk hj
    exact ⟨_, hname j hlt, by simp [CellName.answers, CellName.qualified, hne]⟩
  rw [find, show (projected items v).cellCount = items.length from rfl,
    firstAnswer_range hk hbefore (hname k hk) (by simp [CellName.answers]), hcell]

theorem values_selected (hnames : (items.map (·.cellName.field)).Nodup) (v : RowView) :
    (projected (items.map (·.selected qualifier types)) (qualified qualifier (projected items v))).values =
      (projected items v).values := by
  rw [values_projected, values_projected, List.mapM_map]
  refine mapM_congr fun item hitem => ?_
  show (Lookup.require _ _) = _
  rw [Lookup.require, find_output hnames v hitem]
  cases v.eval item.expr <;> rfl

end RowView

/-! ## Plans -/

namespace Plan

variable {c : Catalog} {options : PlannerOptions} {query : Select} {p : Plan} {policy : ConflictPolicy}
  {q : QueryTree}

theorem tree_ofSelect (h : ofSelect c options query = .ok p) (hq : p.tree c policy = .ok q) :
    q = .literal query.items ∨ ∃ q', q = .project query.items q' := by
  by_cases hsources : query.sources = []
  · obtain ⟨items, sources, filter, groupBy, having, orderBy⟩ := query
    cases hsources
    rw [ofSelect] at h
    split at h
    · cases h
    · obtain rfl := eq_of_ofSourceless h
      cases hq
      exact .inl rfl
  · obtain ⟨needs, joins, _, _, _, hfinish⟩ := ofSelect_eq_ok hsources h
    obtain ⟨q', _, rfl⟩ := tree_finish hfinish hq
    exact .inr ⟨_, rfl⟩

theorem items_of_ofSelect (h : ofSelect c options query = .ok p) : query.items ≠ [] := by
  intro hnil
  obtain ⟨items, sources, filter, groupBy, having, orderBy⟩ := query
  cases hnil
  rw [ofSelect] at h
  cases h

private theorem resolve_selected {items : List SelectItem} {item : SelectItem} (hitem : item ∈ items)
    (qualifier : String) (types : SelectItem → DataType) (needs : Needs) :
    (item.selected qualifier types).expr.resolve [⟨qualifier, .outputs (items.map (·.cellName.field))⟩]
      needs = .ok needs := by
  have hoffered : (items.map (·.cellName.field)).contains item.cellName.field = true :=
    List.contains_iff_mem.mpr (List.mem_map_of_mem hitem)
  rw [SelectItem.selected, Expr.resolve, Expr.fields, List.foldlM_cons, FieldRef.resolve,
    List.findIdx?_cons, beq_self_eq_true]
  simp only [if_true, List.getElem?_cons_zero, hoffered]
  rfl

theorem ofSelect_wrapped (h : ofSelect c options query = .ok p) (qualifier : String)
    (types : SelectItem → DataType) : ofSelect c options (query.wrapped qualifier types) =
      .ok (build c (.project (query.wrapped qualifier types).items)
        [build c (.subQuery qualifier) [p]]) := by
  have hitems : (query.items.map (·.selected qualifier types)).isEmpty = false := by
    simpa using items_of_ofSelect h
  have hresolve : (query.wrapped qualifier types).resolve
      ((query.wrapped qualifier types).sources.map (ScopeEntry.ofFromItem c)) = .ok [[]] := by
    have hclauses : (query.wrapped qualifier types).clauses =
        query.items.map fun item => (item.selected qualifier types).expr := by
      simp [Select.clauses, Select.wrapped]
    rw [Select.resolve, hclauses, foldlM_fixed]
    · rfl
    · intro e he
      obtain ⟨item, hitem, rfl⟩ := List.mem_map.mp he
      exact resolve_selected hitem qualifier types [[]]
  have hplain : (query.wrapped qualifier types).isAggregate = false := by
    simp [Select.isAggregate, Select.wrapped, SelectItem.selected, Expr.hasAggregate, Expr.calls]
  rw [Select.wrapped] at hresolve hplain ⊢
  rw [ofSelect]
  simp only [hitems, hresolve, bind, Except.bind, pure, Except.pure, List.isEmpty_cons,
    Bool.false_eq_true, if_false, checkFilter, ofSources, h, applyOn, attach, finish, splitFilter,
    Expr.ofConjuncts?, hplain, List.isEmpty_nil, if_true]

theorem tree_wrapped (items : List SelectItem) (qualifier : String) (p : Plan) :
    (build c (.project items) [build c (.subQuery qualifier) [p]]).tree c policy =
      (p.tree c policy).map fun q => .project items (.rename qualifier q) := by
  rw [build, build, tree, tree]
  cases p.tree c policy <;> rfl

end Plan

/-! ## Results -/

namespace Stream

theorem fold_map {σ : Type} (f : σ → RowView → Step → Except ExecError σ) (g : RowView → RowView)
    (s : Stream) (acc : σ) :
    (s.map fun v c => (g v, c)).fold f acc = s.fold (fun acc v step => f acc (g v) step) acc := by
  induction s generalizing acc with
  | done => rfl
  | fail e => rfl
  | row v c rest ih =>
    rw [map, fold, fold]
    cases f acc (g v) (.of c) with
    | error e => rfl
    | ok acc => exact ih acc
  | touch rest ih => exact ih acc

end Stream

/-- What is selected from a sub-query is taken in like the rows of the sub-query. -/
theorem QueryTree.readAll_wrapped {σ : Type} {R : Reader} {q : QueryTree} {items selected : List SelectItem}
    {qualifier : String} {f g : σ → RowView → Step → Except ExecError σ}
    (hq : q = .literal items ∨ ∃ q', q = .project items q')
    (hfg : ∀ acc v step, f acc (.projected selected (.qualified qualifier (.projected items v))) step =
      g acc (.projected items v) step) (acc : σ) :
    (project selected (rename qualifier q)).readAll R f acc = q.readAll R g acc := by
  obtain ⟨below, hbelow⟩ : ∃ below : Except ExecError Stream, q.stream R =
      below.map (Stream.map fun v c => (.projected items v, c)) := by
    rcases hq with rfl | ⟨q', rfl⟩
    · exact ⟨.ok (.replay StringList.singleEmptyRow.buffer.rows.toList), rfl⟩
    · exact ⟨q'.stream R, rfl⟩
  rw [readAll, readAll, stream, stream, hbelow]
  cases below with
  | error e => rfl
  | ok s =>
    simp only [Except.map, bind, Except.bind, pure, Except.pure, Stream.fold_map, hfg]

namespace Session

variable {query : Select} {qualifier : String} {types : SelectItem → DataType} {db : Database}

private theorem collectValues_wrapped (hnames : (query.items.map (·.cellName.field)).Nodup)
    (rows : Array (List Value)) (v : RowView) (step : Step) :
    collectValues (.select (query.wrapped qualifier types)) db rows
        (.projected (query.wrapped qualifier types).items
          (.qualified qualifier (.projected query.items v))) step =
      collectValues (.select query) db rows (.projected query.items v) step := by
  have htables : (query.wrapped qualifier types).tables = query.tables := by
    rw [Select.wrapped, Select.tables, Select.tablesOf, Select.tablesOf, List.append_nil]
  have hvalues : (RowView.projected (query.wrapped qualifier types).items
      (.qualified qualifier (.projected query.items v))).values =
        (RowView.projected query.items v).values :=
    RowView.values_selected hnames v
  simp only [collectValues, RowView.copy, RowView.names_projected, hvalues, Statement.tableNames, htables]
  cases (RowView.projected query.items v).values <;> rfl

/-- If the output fields of a query have different names, the query that selects all of them from it as a
sub-query is planned, and it fails as the query fails or answers with the rows of the query. -/
theorem result_wrapped (events : List Event) {s : Session} (hs : s ∈ (System.after events).sessions)
    {p : Plan} (hplan : Plan.ofSelect (System.after events).db.catalog s.options.planner query = .ok p)
    (hnames : (query.items.map (·.cellName.field)).Nodup) (qualifier : String)
    (types : SelectItem → DataType) :
    let db := (System.after events).db
    let wrapped := query.wrapped qualifier types
    (∃ p', Plan.ofSelect db.catalog s.options.planner wrapped = .ok p') ∧
      (s.execute (.select wrapped) db).result.map QueryResult.rows? =
        (s.execute (.select query) db).result.map QueryResult.rows? := by
  intro db wrapped
  have hready := (System.valid_after events).ready s hs
  have hwrapped := Plan.ofSelect_wrapped hplan qualifier types
  refine ⟨⟨_, hwrapped⟩, ?_⟩
  obtain ⟨t, db', hentered, hactive, _⟩ := exists_entered hready
  rw [result_select_eq wrapped hready hentered, result_select_eq query hready hentered, hplan, hwrapped,
    bind_mapError_ok, bind_mapError_ok, Plan.tree_wrapped]
  cases hq : p.tree db.catalog s.options.policy with
  | error e =>
    rw [Except.map, bind_mapError_error, bind_mapError_error]
  | ok q =>
    have hfresh : q.Fresh := (Plan.readOnly_tree (Plan.reads_ofSelect query hplan) hq).1
    have hfresh' : (QueryTree.project wrapped.items (.rename qualifier q)).Fresh := hfresh
    rw [Except.map, bind_mapError_ok, bind_mapError_ok, (drive_select_eq wrapped hfresh' hactive).1,
      (drive_select_eq query hfresh hactive).1,
      QueryTree.readAll_wrapped (Plan.tree_ofSelect hplan hq) (collectValues_wrapped hnames)]
    cases q.readAll (db'.reader t) (collectValues (.select query) db') #[] <;> rfl

/-- `SELECT t.a AS n, COUNT(*) FROM t GROUP BY t.a`. -/
def countsByValue : Select where
  items := [⟨.field ⟨"t", "a", .integer⟩, some "n"⟩, ⟨.aggregate .count none, none⟩]
  sources := [⟨.table ⟨0⟩, none⟩]
  filter := none
  groupBy := [.field ⟨"t", "a", .integer⟩]
  having := none
  orderBy := []

theorem result_wrapped_countsByValue :
    let db := (System.after openWithRows).db
    openSession ∈ (System.after openWithRows).sessions ∧
      (countsByValue.items.map (·.cellName.field)).Nodup ∧
      ((openSession.execute (.select countsByValue) db).result.toOption.bind QueryResult.rows? =
        some [[.integer 1, .integer 1], [.integer 2, .integer 1]]) ∧
      ∃ p, Plan.ofSelect db.catalog openSession.options.planner countsByValue = .ok p ∧
        (openSession.execute (.select (countsByValue.wrapped "s" (·.expr.dataType))) db).result.map
            QueryResult.rows? =
          (openSession.execute (.select countsByValue) db).result.map QueryResult.rows? := by
  have hsession : openSession ∈ (System.after openWithRows).sessions := List.mem_singleton_self _
  have hnames : (countsByValue.items.map (·.cellName.field)).Nodup := by decide
  obtain ⟨p, hplan⟩ : ∃ p, Plan.ofSelect (System.after openWithRows).db.catalog
      openSession.options.planner countsByValue = .ok p := ⟨_, rfl⟩
  exact ⟨hsession, hnames, by decide +kernel, p, hplan,
    (result_wrapped openWithRows hsession hplan hnames "s" (·.expr.dataType)).2⟩

end Session

end SnapshotSql
