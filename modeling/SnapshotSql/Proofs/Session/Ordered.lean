import Mathlib.Data.List.Perm.Basic
import SnapshotSql.Proofs.Query.Ordered
import SnapshotSql.Proofs.Session.Wrapped
/-! # Answers in order -/

namespace SnapshotSql

namespace Plan

/-- What a plan sorts, if its rows are selected from a sort. -/
def sortInput? : Plan → Option Plan
  | ⟨.project _, [⟨.sort _, [below], _⟩], _⟩ => some below
  | _ => none

/-- The rows that reach the sort of a plan. -/
def sortedRows? (c : Catalog) (policy : ConflictPolicy) (R : Reader) (p : Plan) :
    Option (List (RowView × Bool)) := do
  let below ← p.sortInput?
  let q ← (below.tree c policy).toOption
  q.completed R

theorem sortedRows?_sorted {c : Catalog} {policy : ConflictPolicy} {below : Plan} {q : QueryTree}
    (h : below.tree c policy = .ok q) (R : Reader) (items : List SelectItem) (keys : List SortKey) :
    (build c (.project items) [build c (.sort keys) [below]]).sortedRows? c policy R = q.completed R := by
  show ((below.tree c policy).toOption.bind fun q => q.completed R) = _
  rw [h]
  rfl

end Plan

namespace Session

/-! ## Rows -/

private theorem answerCells_projected {N : CellName → Prop} {items : List SelectItem} {v w : RowView}
    (hitems : ∀ item ∈ items, item.expr.Within N) (h : v.AgreeOn N w) (c : Bool) :
    answerCells (.projected items v, c) = answerCells (.projected items w, c) := by
  have hvalues : (RowView.projected items v).values = (RowView.projected items w).values := by
    rw [RowView.values_projected, RowView.values_projected]
    exact mapM_congr fun item hitem => h.eval (hitems item hitem)
  simp only [answerCells, RowView.copy, RowView.names_projected, hvalues]
  cases (RowView.projected items w).values <;> rfl

/-- What is selected from sorted rows is what is selected from the rows themselves, in some order, if the
select list cannot tell these rows apart. -/
private theorem answerCells_sorted {R : Reader} {N : CellName → Prop} {items : List SelectItem}
    {keys : List SortKey} {q q' : QueryTree} {rs : List (RowView × Bool)} (h : q.Widens R N q')
    (hitems : ∀ item ∈ items, item.expr.Within N)
    (hrs : (QueryTree.project items q).completed R = some rs)
    (hsortable : ∀ rs, q'.completed R = some rs → QueryTree.Sortable keys rs) :
    ∃ outs, (QueryTree.project items (.sort keys q')).completed R = some outs ∧
      (outs.map answerCells).Perm (rs.map answerCells) := by
  rw [QueryTree.completed_project] at hrs
  obtain ⟨below, hbelow, rfl⟩ := Option.map_eq_some_iff.mp hrs
  obtain ⟨below', hbelow', hpaired⟩ : ∃ below', q'.completed R = some below' ∧
      Paired (RowView.AgreeOn N) below below' := by
    rw [QueryTree.Widens, hbelow] at h
    generalize q'.completed R = x at h
    cases h with
    | some h => exact ⟨_, rfl, h⟩
  obtain ⟨copies, outs, houts, halike, hperm⟩ :=
    QueryTree.completed_sort_perm hbelow' (hsortable below' hbelow')
  have hagree : Paired (RowView.AgreeOn N) below copies :=
    Paired.trans (B := RowView.Alike) (fun h h' => h.trans h'.agreeOn) hpaired halike
  have hcells : copies.map (fun r => answerCells (.projected items r.1, r.2)) =
      below.map fun r => answerCells (.projected items r.1, r.2) := by
    clear hbelow hperm halike hpaired hrs
    induction hagree with
    | nil => rfl
    | @cons r r' below copies hr _ ih =>
      rw [List.map_cons, List.map_cons, ih, answerCells_projected hitems hr.1, hr.2]
  refine ⟨_, by rw [QueryTree.completed_project, houts, Option.map_some], ?_⟩
  rw [List.map_map, List.map_map]
  exact (hperm.map _).trans (.of_eq hcells)

private theorem collected_perm {stmt stmt' : Statement} {db : Database} {rs rs' : List (RowView × Bool)}
    {rows : Array (List Value)} (hperm : (rs'.map answerCells).Perm (rs.map answerCells))
    (h : rs.foldlM (fun rows r => collectValues stmt db rows r.1 (.of r.2)) #[] = .ok rows) :
    ∃ rows', rs'.foldlM (fun rows r => collectValues stmt' db rows r.1 (.of r.2)) #[] = .ok rows' ∧
      rows'.toList.Perm rows.toList := by
  rw [foldlM_collectValues.mp h] at hperm
  have hcells : List.Forall₂ (fun cells values => cells = (some values, false))
      (rows.toList.map fun values => (some values, false)) rows.toList :=
    List.forall₂_map_left_iff.mpr (List.forall₂_same.mpr fun _ _ => rfl)
  obtain ⟨values, hvalues, hrows⟩ := List.perm_comp_forall₂ hperm hcells
  refine ⟨values.toArray, foldlM_collectValues.mpr ?_, hrows⟩
  rw [← List.forall₂_eq_eq_eq]
  exact List.forall₂_map_right_iff.mpr hvalues

/-! ## Results -/

variable {query : Select} {keys : List SortKey} {p' : Plan} {set : ResultSet}

private theorem answer_sorted {t : TxHandle} {db : Database} (h : db.Active t) {N : CellName → Prop}
    {q q' : QueryTree} (hq : (QueryTree.project query.items q).Fresh)
    (hq' : (QueryTree.project query.items (.sort keys q')).Fresh) (hwidens : q.Widens (db.reader t) N q')
    (hitems : ∀ item ∈ query.items, item.expr.Within N)
    (hsorted : ∀ rs, q'.completed (db.reader t) = some rs → QueryTree.Sortable keys rs)
    (hanswer : (drive (.select query) (QueryTree.project query.items q).operator t db).answer =
      .ok (.rows set)) :
    ∃ set', (drive (.select (query.ordered keys))
        (QueryTree.project query.items (.sort keys q')).operator t db).answer = .ok (.rows set') ∧
      set'.columns = set.columns ∧ set'.rows.Perm set.rows := by
  have hread := answer_drive_select query hq h
  have hread' := answer_drive_select (query.ordered keys) hq' h
  rw [hanswer] at hread
  obtain ⟨rows, hrows, hset⟩ := Option.map_eq_some_iff.mp hread.symm
  obtain ⟨rs, hrs, hrows⟩ := Option.bind_eq_some_iff.mp hrows
  obtain ⟨outs, houts, hperm⟩ := answerCells_sorted hwidens hitems hrs hsorted
  obtain ⟨rows', hrows', hperm⟩ := collected_perm hperm (toOption_eq_some.mp hrows)
  rw [houts, Option.bind_some, toOption_eq_some.mpr hrows', Option.map_some] at hread'
  cases hset
  exact ⟨_, toOption_eq_some.mp hread', rfl, hperm⟩

/-- The rows that reach the sort of a plan when a session runs it. -/
def sortedRows? (s : Session) (p : Plan) (db : Database) : Option (List (RowView × Bool)) :=
  p.sortedRows? db.catalog s.options.policy ((s.entered db).2.reader (s.entered db).1)

/-- A query with an ORDER BY answers with the same rows in some order, if the rows that reach the sort can
be sorted. -/
theorem result_ordered (events : List Event) {s : Session} (hs : s ∈ (System.after events).sessions)
    (horder : query.orderBy = []) (hkeys : ∀ key ∈ keys, key.expr.hasAggregate = false)
    (hcalls : query.CallsApart keys)
    (hplan : Plan.ofSelect (System.after events).db.catalog s.options.planner (query.ordered keys) =
      .ok p')
    (hsorted : ∀ rows ∈ s.sortedRows? p' (System.after events).db, QueryTree.Sortable keys rows)
    (hresult : (s.execute (.select query) (System.after events).db).result = .ok (.rows set)) :
    ∃ set', (s.execute (.select (query.ordered keys)) (System.after events).db).result =
      .ok (.rows set') ∧ set'.columns = set.columns ∧ set'.rows.Perm set.rows := by
  have hvalid := System.valid_after events
  have hready := hvalid.ready s hs
  have hformed := Database.formed_of_reachable hvalid.reachable
  generalize (System.after events).db = db at *
  by_cases hne : keys = []
  · have hsame : query.ordered keys = query := by
      cases query
      rw [hne, ← horder]
      rfl
    exact ⟨set, hsame.symm ▸ hresult, rfl, .refl _⟩
  obtain ⟨t, db', hentered, hactive, hcatalog⟩ := exists_entered hready
  have hR : (db'.reader t).Formed db.catalog := by
    rw [← hcatalog] at hformed ⊢
    exact Database.length_values hformed
  rw [sortedRows?, hentered] at hsorted
  obtain ⟨p, tree, hplain, htree, hanswer⟩ := (result_select_eq_ok query hready hentered).mp hresult
  -- Both plans have the same select list, over trees of which one widens the other.
  obtain ⟨g, g', N, rfl, rfl, hwidens, hitems⟩ :=
    Plan.widens_ordered s.options.policy hR horder hne hkeys hcalls hplain hplan
  obtain ⟨q, hq, rfl⟩ := map_eq_ok.mp htree
  obtain ⟨q', hq', hwidens⟩ := hwidens q hq
  have htree' : (Plan.build db.catalog (.project query.items) [.build db.catalog (.sort keys) [g']]).tree
      db.catalog s.options.policy = .ok (.project query.items (.sort keys q')) := by
    rw [Plan.build, Plan.tree, Plan.build, Plan.tree, hq']
    rfl
  rw [Plan.sortedRows?_sorted hq'] at hsorted
  obtain ⟨set', hanswer', hset'⟩ := answer_sorted hactive
    (Plan.readOnly_tree (Plan.reads_ofSelect query hplain) htree).1
    (Plan.readOnly_tree (Plan.reads_ofSelect _ hplan) htree').1 hwidens hitems hsorted hanswer
  exact ⟨set', (result_select_eq_ok _ hready hentered).mpr ⟨_, _, hplan, htree', hanswer'⟩, hset'⟩

def answeredRows (s : Session) (query : Select) (db : Database) : Option (List (List Value)) :=
  (s.execute (.select query) db).result.toOption.bind QueryResult.rows?

theorem answeredRows_eq_some {s : Session} {db : Database} {rows : List (List Value)} :
    s.answeredRows query db = some rows ↔
      ∃ set, (s.execute (.select query) db).result = .ok (.rows set) ∧ set.rows = rows := by
  rw [answeredRows, Option.bind_eq_some_iff]
  constructor
  · rintro ⟨result, hresult, hrows⟩
    cases result with
    | rows set => exact ⟨set, toOption_eq_some.mp hresult, Option.some.inj hrows⟩
    | _ => cases hrows
  · rintro ⟨set, hset, rfl⟩
    exact ⟨.rows set, toOption_eq_some.mpr hset, rfl⟩

instance {ε α : Type} (e : Except ε α) : Decidable (∃ a, e = .ok a) :=
  decidable_of_iff (e.toOption.isSome = true) (by cases e <;> simp [Except.toOption])

/-- `SELECT t.a FROM t`. -/
def firstColumn : Select where
  items := [⟨.field ⟨"t", "a", .integer⟩, none⟩]
  sources := [⟨.table ⟨0⟩, none⟩]
  filter := none
  groupBy := []
  having := none
  orderBy := []

/-- `t.b`, which is not selected. -/
def bySecond : List SortKey := [⟨.field ⟨"t", "b", .integer⟩, true⟩]

theorem result_ordered_bySecond :
    let db := (System.after openWithRows).db
    openSession ∈ (System.after openWithRows).sessions ∧ firstColumn.orderBy = [] ∧
      (∀ key ∈ bySecond, key.expr.hasAggregate = false) ∧ firstColumn.CallsApart bySecond ∧
      openSession.answeredRows (firstColumn.ordered bySecond) db = some [[.integer 2], [.integer 1]] ∧
      ∃ p' set set', Plan.ofSelect db.catalog openSession.options.planner
          (firstColumn.ordered bySecond) = .ok p' ∧
        (∀ rows ∈ openSession.sortedRows? p' db, QueryTree.Sortable bySecond rows) ∧
        (openSession.execute (.select firstColumn) db).result = .ok (.rows set) ∧
        set.rows = [[.integer 1], [.integer 2]] ∧
        (openSession.execute (.select (firstColumn.ordered bySecond)) db).result = .ok (.rows set') ∧
        set'.columns = set.columns ∧ set'.rows.Perm set.rows := by
  intro db
  have hsession : openSession ∈ (System.after openWithRows).sessions := List.mem_singleton_self _
  have hkeys : ∀ key ∈ bySecond, key.expr.hasAggregate = false := by decide
  have hcalls : firstColumn.CallsApart bySecond := nofun
  obtain ⟨p', hplan, hrows, hcolumns⟩ : ∃ p', Plan.ofSelect db.catalog openSession.options.planner
      (firstColumn.ordered bySecond) = .ok p' ∧
        (∀ rows ∈ openSession.sortedRows? p' db, ∀ r ∈ rows,
          (∀ key ∈ bySecond, ∃ a, r.1.eval key.expr = .ok a) ∧ ∃ copy, r.1.copy = .ok copy) ∧
        ∀ rows ∈ openSession.sortedRows? p' db, ∀ key ∈ bySecond,
          Value.Unmixed (rows.filterMap fun r => (r.1.eval key.expr).toOption) :=
    ⟨_, rfl, by decide +kernel, by decide +kernel⟩
  have hsorted : ∀ rows ∈ openSession.sortedRows? p' db, QueryTree.Sortable bySecond rows :=
    fun rows h => ⟨fun r hr => (hrows rows h r hr).1, fun r hr => (hrows rows h r hr).2,
      fun key hkey => (hcolumns rows h key hkey).unblurred⟩
  obtain ⟨set, hset, hrows⟩ := answeredRows_eq_some.mp
    (show openSession.answeredRows firstColumn db = some [[.integer 1], [.integer 2]] by decide +kernel)
  obtain ⟨set', hset', hcolumns, hperm⟩ :=
    result_ordered openWithRows hsession rfl hkeys hcalls hplan hsorted hset
  exact ⟨hsession, rfl, hkeys, hcalls, by decide +kernel, p', set, set', hplan, hsorted, hset, hrows, hset',
    hcolumns, hperm⟩

/-- A query and the query with an ORDER BY are planned, and all rows that reach the sort have their keys. -/
def KeysApply (s : Session) (query : Select) (keys : List SortKey) (db : Database) : Prop :=
  query.orderBy = [] ∧ (∀ key ∈ keys, key.expr.hasAggregate = false) ∧
    (∃ p, Plan.ofSelect db.catalog s.options.planner query = .ok p) ∧
    ∃ p', Plan.ofSelect db.catalog s.options.planner (query.ordered keys) = .ok p' ∧
      ∀ rows ∈ s.sortedRows? p' db, ∀ r ∈ rows, ∀ key ∈ keys, ∃ a, r.1.eval key.expr = .ok a

/-- `SELECT s.a FROM (SELECT t.a, t.a / (t.a - 1) AS c FROM t) AS s`, which does not compute `c`. -/
def besideQuotient : Select where
  items := [⟨.field ⟨"s", "a", .integer⟩, none⟩]
  sources := [⟨.query {
    items := [⟨.field ⟨"t", "a", .integer⟩, none⟩,
      ⟨.arithmetic .div (.field ⟨"t", "a", .integer⟩)
        (some (.arithmetic .sub (.field ⟨"t", "a", .integer⟩) (some (.literal (.integer 1))))), some "c"⟩]
    sources := [⟨.table ⟨0⟩, none⟩]
    filter := none
    groupBy := []
    having := none
    orderBy := [] } "s", none⟩]
  filter := none
  groupBy := []
  having := none
  orderBy := []

/-- Two tables with a column that has the name of a call. -/
def openWithCounts : List Event :=
  [.operate (.createTable "l" [⟨"COUNT(*)", .integer, true⟩]),
    .operate (.createTable "r" [⟨"COUNT(*)", .integer, true⟩]),
    .operate (.begin .readCommitted), .operate (.insertRow ⟨0⟩ ⟨0⟩ [.integer 0]),
    .operate (.insertRow ⟨0⟩ ⟨1⟩ [.integer 1]), .operate (.commit ⟨0⟩), .connect {}]

/-- `SELECT r."COUNT(*)" FROM l JOIN r ON COUNT(*) = 1`. -/
def joinedOnCall : Select where
  items := [⟨.field ⟨"r", "COUNT(*)", .integer⟩, none⟩]
  sources := [⟨.table ⟨0⟩, none⟩,
    ⟨.table ⟨1⟩, some (.comparison .eq (.aggregate .count none) (.literal (.integer 1)))⟩]
  filter := none
  groupBy := []
  having := none
  orderBy := []

/-- It does not do to evaluate the keys: a sort reads a column of a sub-query that is not selected, and a
column that a key reads may be found for a call in an ON condition. -/
theorem answeredRows_ordered_ne :
    (let db := (System.after openWithRows).db
      let keys := [⟨.field ⟨"s", "a", .integer⟩, true⟩]
      openSession ∈ (System.after openWithRows).sessions ∧ openSession.KeysApply besideQuotient keys db ∧
        openSession.answeredRows besideQuotient db = some [[.integer 1], [.integer 2]] ∧
        (openSession.execute (.select (besideQuotient.ordered keys)) db).result.toOption.isNone) ∧
    (let db := (System.after openWithCounts).db
      let keys := [⟨.field ⟨"l", "COUNT(*)", .integer⟩, true⟩]
      ({} : Session) ∈ (System.after openWithCounts).sessions ∧ KeysApply {} joinedOnCall keys db ∧
        answeredRows {} joinedOnCall db = some [[.integer 1]] ∧
        answeredRows {} (joinedOnCall.ordered keys) db = some []) := by
  refine ⟨⟨List.mem_singleton_self _, ⟨rfl, by decide, ⟨_, rfl⟩, _, rfl, by decide +kernel⟩, ?_, ?_⟩,
    List.mem_singleton_self _, ⟨rfl, by decide, ⟨_, rfl⟩, _, rfl, by decide +kernel⟩, ?_, ?_⟩
  all_goals decide +kernel

end Session

end SnapshotSql
