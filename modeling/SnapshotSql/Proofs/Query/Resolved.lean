import SnapshotSql.Proofs.Query.CallResults
import SnapshotSql.Proofs.Query.Conjuncts
import SnapshotSql.Proofs.Query.Finished
import SnapshotSql.Proofs.Query.Lookups
import SnapshotSql.Proofs.Query.Scope
import SnapshotSql.Proofs.Query.Yields
/-! # Names resolved by planning -/

namespace SnapshotSql

def ExecError.Found (e : ExecError) : Prop := ∀ name, e ≠ .fieldNotFound name

theorem ExecError.found_of_computing (e : ExecError) (h : e.Computing) : e.Found := by
  rintro name rfl
  cases h

/-! ## Names of expressions -/

namespace Expr

variable {N : CellName → Prop} {F : FieldRef → Prop} {e : Expr} {es : List Expr}

def Names (F : FieldRef → Prop) (name : CellName) : Prop :=
  ∃ ref, F ref ∧ name = .qualified ref.table ref.field

theorem within_names (haggregate : e.hasAggregate = false) (h : ∀ ref ∈ e.fields, F ref) :
    e.Within (Names F) where
  field ref href := ⟨ref, h ref (plainFields_subset e href), rfl⟩
  call call hcall := by
    have hcalls := hasAggregate_eq_false.mp haggregate
    rw [hcalls] at hcall
    cases hcall

mutual

theorem fields_arg_subset {call : AggregateCall} {arg : Expr} (harg : call.arg = some arg) :
    ∀ {e : Expr}, call ∈ e.calls → arg.fields ⊆ e.fields
  | .field _, h => by
    rw [calls] at h
    cases h
  | .literal _, h => by
    rw [calls] at h
    cases h
  | .comparison _ l r, h => by
    rw [calls] at h
    rw [fields]
    rcases List.mem_append.mp h with h | h
    · exact List.subset_append_of_subset_left _ (fields_arg_subset harg h)
    · exact List.subset_append_of_subset_right _ (fields_arg_subset harg h)
  | .junction _ terms, h => by
    rw [calls] at h
    rw [fields]
    exact fields_arg_subset_all harg h
  | .arithmetic _ e none, h => by
    rw [calls] at h
    rw [fields]
    exact fields_arg_subset harg h
  | .arithmetic _ l (some r), h => by
    rw [calls] at h
    rw [fields]
    rcases List.mem_append.mp h with h | h
    · exact List.subset_append_of_subset_left _ (fields_arg_subset harg h)
    · exact List.subset_append_of_subset_right _ (fields_arg_subset harg h)
  | .isNull e _, h => by
    rw [calls] at h
    rw [fields]
    exact fields_arg_subset harg h
  | .aggregate fn arg', h => by
    rw [calls, List.mem_singleton] at h
    cases h
    cases harg
    rw [fields]
    exact List.Subset.refl _

theorem fields_arg_subset_all {call : AggregateCall} {arg : Expr} (harg : call.arg = some arg) :
    ∀ {es : List Expr}, call ∈ callsAll es → arg.fields ⊆ fieldsAll es
  | [], h => by
    rw [callsAll] at h
    cases h
  | e :: es, h => by
    rw [callsAll] at h
    rw [fieldsAll]
    rcases List.mem_append.mp h with h | h
    · exact List.subset_append_of_subset_left _ (fields_arg_subset harg h)
    · exact List.subset_append_of_subset_right _ (fields_arg_subset_all harg h)

end

end Expr

namespace Select

/-- The expressions evaluated above the groups of a query. -/
def above (s : Select) : List Expr :=
  s.items.map (·.expr) ++ s.having.toList ++ s.orderBy.map (·.expr)

variable {s : Select}

theorem item_mem_above {item : SelectItem} (h : item ∈ s.items) : item.expr ∈ s.above := by
  rw [above, List.append_assoc]
  exact List.mem_append_left _ (List.mem_map_of_mem h)

theorem key_mem_above {key : SortKey} (h : key ∈ s.orderBy) : key.expr ∈ s.above :=
  List.mem_append_right _ (List.mem_map_of_mem h)

theorem above_subset (s : Select) : s.above ⊆ s.clauses := by
  intro e he
  simp only [above, clauses, List.mem_append] at he ⊢
  tauto

structure FormsGroups (s : Select) : Prop where
  ungrouped : ∀ e ∈ s.above, e.ungrouped? (s.groupBy.filterMap fun
    | .field ref => some ref
    | _ => none) = none
  keys : ∀ e ∈ s.groupBy, e.hasAggregate = false

mutual

def queries : Select → List Select
  | ⟨items, sources, filter, groupBy, having, orderBy⟩ =>
    ⟨items, sources, filter, groupBy, having, orderBy⟩ :: queriesIn sources

def queriesIn : List FromItem → List Select
  | [] => []
  | ⟨.table _, _⟩ :: rest => queriesIn rest
  | ⟨.query select _, _⟩ :: rest => select.queries ++ queriesIn rest

end

/-- Calls are made where there are groups, equal ones are written alike, and a conjunct of WHERE is
pushed to the first source of the name that it reads. -/
structure Traceable (c : Catalog) (s : Select) : Prop where
  joins : ∀ item ∈ s.sources, ∀ on, item.on = some on → on.hasAggregate = false
  arguments : ∀ call ∈ s.above.flatMap Expr.calls, ∀ arg, call.arg = some arg →
    arg.hasAggregate = false
  texts : ∀ call ∈ s.above.flatMap Expr.calls, ∀ other ∈ s.above.flatMap Expr.calls,
    other.same call = true → other.render = call.render
  pushed : s.sources.length ≠ 1 → ∀ e ∈ s.filter.toList.flatMap Expr.conjuncts, ∀ i,
    e.pushTarget? (s.sources.map (ScopeEntry.ofFromItem c)) = some i → ∀ ref ∈ e.fields,
      (s.sources.map (ScopeEntry.ofFromItem c)).findIdx? (·.name == ref.table) = some i

end Select

/-! ## Queries -/

namespace QueryTree

variable {R : Reader} {N M : CellName → Prop} {q left right : QueryTree} {policy : ConflictPolicy}

/-- Every row of the query supplies the names, and the query does not fail for a cell not found. -/
def Supplies (R : Reader) (N : CellName → Prop) (q : QueryTree) : Prop :=
  q.Yields R (·.Supplies ExecError.Found N) ExecError.Found

def ShowsItems (items : List SelectItem) (v : RowView) : Prop :=
  v.Supplies ExecError.Found (fun name => ∃ item ∈ items, item.cellName.answers name = true) ∧
    ∃ inner, v = .projected items inner

theorem Supplies.weaken (h : q.Supplies R N) (hMN : ∀ name, M name → N name) : q.Supplies R M :=
  Yields.weaken h fun _ hv => hv.weaken hMN

private theorem supplies_beside {v : RowView} (h : v.Supplies ExecError.Found N) :
    (RowView.joined v .empty).Supplies ExecError.Found N :=
  (h.joined (RowView.supplies_empty ExecError.found_of_computing)).weaken fun _ => .inl

theorem supplies_filter {condition : Expr} (h : q.Supplies R N) (hcondition : condition.Within N) :
    (filter condition policy q).Supplies R N :=
  yields_filter h fun _ hv => (supplies_beside hv).holds ExecError.found_of_computing hcondition

theorem supplies_filtering {terms : List Expr} (h : q.Supplies R N) (hterms : ∀ e ∈ terms, e.Within N) :
    (q.filtering policy terms).Supplies R N := by
  unfold filtering
  split
  · exact h
  · rename_i condition hcondition
    exact supplies_filter h (Expr.within_ofConjuncts? hterms hcondition)

theorem supplies_scan {s : TableScan} (hN : ∀ name, N name →
      ∃ cell ∈ s.names.take s.columns.length, cell.answers name = true)
    (hpredicates : ∀ e ∈ s.predicates, e.Within N) : (scan s).Supplies R N :=
  yields_scan (fun v _ => (RowView.supplies_stored ExecError.found_of_computing s.names s.columns
    v).weaken hN) fun _ hv => (supplies_beside hv).holdsAll ExecError.found_of_computing hpredicates

theorem supplies_join (hl : left.Supplies R N) (hr : right.Supplies R M) :
    (join left right).Supplies R fun name => N name ∨ M name :=
  yields_join hl hr fun _ _ hv hw => hv.joined hw

theorem supplies_rename {items : List SelectItem} (qualifier : String)
    (h : q.Yields R (ShowsItems items) ExecError.Found) : (rename qualifier q).Supplies R
      fun name => ∃ item ∈ items, name = .qualified qualifier item.cellName.field := by
  refine yields_rename h ?_
  rintro v ⟨hv, inner, rfl⟩
  refine (RowView.supplies_qualified ExecError.found_of_computing qualifier hv).weaken ?_
  rintro name ⟨item, hitem, rfl⟩
  obtain ⟨i, hi, rfl⟩ := List.getElem_of_mem hitem
  refine ⟨i, hi, items[i].cellName, ?_, by simp [CellName.answers]⟩
  rw [RowView.nameAt, RowView.cellOf, List.getElem?_eq_getElem hi]
  rfl

theorem showsItems_project {items : List SelectItem} (h : q.Supplies R N)
    (hitems : ∀ item ∈ items, item.expr.Within N) :
    (project items q).Yields R (ShowsItems items) ExecError.Found :=
  yields_project h fun v hv => ⟨RowView.supplies_projected ExecError.found_of_computing
    fun item hitem => hv.eval ExecError.found_of_computing (hitems item hitem), v, rfl⟩

/-! ### Groups -/

section

variable {s : Select}

private theorem within_cellNames {c : Catalog} (hs : s.Traceable c)
    (hungrouped : ∀ e ∈ s.above, e.ungrouped? (s.groupBy.filterMap fun
      | .field ref => some ref
      | _ => none) = none) {e : Expr} (he : e ∈ s.above) :
    e.Within fun name => ∃ cell ∈ Group.cellNames s.groupBy (Expr.distinctCalls s.above),
      cell.answers name = true where
  field ref href := by
    have hkey := List.find?_eq_none.mp (hungrouped e he) ref href
    simp only [Bool.not_eq_true', Bool.not_eq_false, List.any_eq_true, List.mem_filterMap] at hkey
    obtain ⟨g, ⟨key, hmem, hg⟩, hsame⟩ := hkey
    rw [Bool.and_eq_true, beq_iff_eq, beq_iff_eq] at hsame
    cases key with
    | field ref' =>
      cases hg
      refine ⟨_, List.mem_append_left _ (List.mem_map_of_mem hmem), ?_⟩
      simp [SelectItem.cellName, CellName.answers, CellName.qualified, hsame]
    | _ => cases hg
  call call hcall := by
    have hmem : call ∈ s.above.flatMap Expr.calls := List.mem_flatMap.mpr ⟨e, he, hcall⟩
    obtain ⟨k, hk, hsame⟩ := Expr.exists_mem_distinctCalls hmem
    have htext : k.render = call.render := by
      rcases hsame with rfl | hsame
      · rfl
      · exact hs.texts call hmem k (Expr.mem_of_mem_distinctCalls hk) hsame
    refine ⟨.plain k.render, List.mem_append_right _ (List.mem_map_of_mem hk), ?_⟩
    simp [CellName.answers, CellName.plain, htext]

private theorem supplies_grouping {c : Catalog} (h : q.Supplies R N) (hs : s.Traceable c)
    (haggregate : s.isAggregate = true) (hgroupBy : ∀ e ∈ s.groupBy, e.Within N)
    (harguments : ∀ call ∈ s.above.flatMap Expr.calls, ∀ arg, call.arg = some arg → arg.Within N)
    (hungrouped : ∀ e ∈ s.above, e.ungrouped? (s.groupBy.filterMap fun
      | .field ref => some ref
      | _ => none) = none) :
    (q.grouping policy s).Supplies R
      fun name => ∃ cell ∈ Group.cellNames s.groupBy (Expr.distinctCalls s.above),
        cell.answers name = true := by
  have hgroups : (aggregate s.groupBy (Expr.distinctCalls s.above) q).Supplies R
      fun name => ∃ cell ∈ Group.cellNames s.groupBy (Expr.distinctCalls s.above),
        cell.answers name = true :=
    yields_aggregate ExecError.found_of_computing h hgroupBy fun call hcall =>
      harguments call (Expr.mem_of_mem_distinctCalls hcall)
  rw [grouping, if_pos haggregate]
  cases hhaving : s.having with
  | none => rwa [Select.above, hhaving] at hgroups ⊢
  | some having =>
    have hwithin := within_cellNames hs hungrouped (e := having) (by simp [Select.above, hhaving])
    have hfiltered : (filter having policy
        (aggregate s.groupBy (Expr.distinctCalls s.above) q)).Supplies R _ :=
      supplies_filter hgroups hwithin
    rwa [Select.above, hhaving] at hfiltered ⊢

/-- With the fields that the clauses of a query read, it comes to its output. -/
theorem supplies_finishing {c : Catalog} {F : FieldRef → Prop} (h : q.Supplies R (Expr.Names F))
    (hs : s.Traceable c) (hclauses : ∀ e ∈ s.clauses, ∀ ref ∈ e.fields, F ref)
    (hgrouped : s.isAggregate = true → s.FormsGroups) :
    (q.finishing policy s).Yields R (ShowsItems s.items) ExecError.Found := by
  have hsorted : ∀ {M : CellName → Prop}, (q.grouping policy s).Supplies R M →
      (∀ item ∈ s.items, item.expr.Within M) → (∀ key ∈ s.orderBy, key.expr.Within M) →
      (q.finishing policy s).Yields R (ShowsItems s.items) ExecError.Found := by
    intro M hgrouping hitems hkeys
    refine showsItems_project ?_ hitems
    split
    · exact hgrouping
    · exact yields_sort ExecError.found_of_computing hgrouping hkeys fun _ keyed _ _ =>
        (KeyedRow.raises_sorted s.orderBy keyed.toList).mono fun e he => he ▸ nofun
  cases haggregate : s.isAggregate with
  | true =>
    have hforms := hgrouped haggregate
    have harguments : ∀ call ∈ s.above.flatMap Expr.calls, ∀ arg, call.arg = some arg →
        arg.Within (Expr.Names F) := by
      intro call hcall arg harg
      obtain ⟨e, he, hmem⟩ := List.mem_flatMap.mp hcall
      exact Expr.within_names (hs.arguments call hcall arg harg) fun ref href =>
        hclauses e (Select.above_subset s he) ref (Expr.fields_arg_subset harg hmem href)
    have hkeys : ∀ e ∈ s.groupBy, e.Within (Expr.Names F) := fun e he =>
      Expr.within_names (hforms.keys e he) (hclauses e (by simp [Select.clauses, he]))
    exact hsorted (supplies_grouping h hs haggregate hkeys harguments hforms.ungrouped)
      (fun item hitem => within_cellNames hs hforms.ungrouped (Select.item_mem_above hitem))
      fun key hkey => within_cellNames hs hforms.ungrouped (Select.key_mem_above hkey)
  | false =>
    have hgrouping : q.grouping policy s = q := by simp [grouping, haggregate]
    simp only [Select.isAggregate, Bool.or_eq_false_iff, List.any_eq_false, Bool.not_eq_true]
      at haggregate
    rw [← hgrouping] at h
    exact hsorted h
      (fun item hitem => Expr.within_names (haggregate.1.2 item hitem)
        (hclauses item.expr (Select.above_subset s (Select.item_mem_above hitem))))
      fun key hkey => Expr.within_names (haggregate.2 key hkey)
        (hclauses key.expr (Select.above_subset s (Select.key_mem_above hkey)))

end

end QueryTree

/-! ## Plans -/

namespace Plan

variable {c : Catalog} {policy : ConflictPolicy} {options : PlannerOptions} {R : Reader}
  {F G : FieldRef → Prop} {p q : Plan} {s : Select}

def Supplies (R : Reader) (c : Catalog) (policy : ConflictPolicy) (F : FieldRef → Prop) (p : Plan) :
    Prop :=
  ∀ t, p.tree c policy = .ok t → t.Supplies R (Expr.Names F)

private theorem supplies_filtered {condition : Expr} (h : p.Supplies R c policy F)
    (hcondition : condition.Within (Expr.Names F)) :
    (filtered c condition p).Supplies R c policy F := by
  intro t ht
  obtain ⟨t', ht', rfl⟩ := tree_filtered ht
  exact QueryTree.supplies_filter (h t' ht') hcondition

private theorem supplies_applyOn {on : Option Expr} (h : p.Supplies R c policy F)
    (hon : ∀ e, on = some e → e.hasAggregate = false ∧ ∀ ref ∈ e.fields, F ref)
    (hq : applyOn c on p = .ok q) : q.Supplies R c policy F := by
  cases on with
  | none =>
    cases hq
    exact h
  | some on =>
    obtain ⟨_, _, hq⟩ := bind_eq_ok.mp hq
    cases hq
    exact supplies_filtered h (Expr.within_names (hon on rfl).1 (hon on rfl).2)

private theorem supplies_cached (h : p.Supplies R c policy F) :
    (build c .cached [p]).Supplies R c policy F := by
  intro t ht
  rw [build, tree] at ht
  obtain ⟨t', ht', rfl⟩ := map_eq_ok.mp ht
  exact QueryTree.yields_cached ExecError.found_of_computing (h t' ht')

private theorem supplies_attach {left : Option Plan} {isTable : Bool}
    (hleft : ∀ l, left = some l → l.Supplies R c policy F) (h : p.Supplies R c policy G) :
    (attach c options isTable left p).Supplies R c policy
      fun ref => left.isSome ∧ F ref ∨ G ref := by
  cases left with
  | none =>
    intro t ht
    refine (h t ht).weaken ?_
    rintro name ⟨ref, href, rfl⟩
    exact ⟨ref, href.resolve_left fun hsome => Bool.false_ne_true hsome.1, rfl⟩
  | some l =>
    have hright : (if options.cacheInner && isTable then build c .cached [p] else p).Supplies R c
        policy G := by
      split
      · exact supplies_cached h
      · exact h
    intro t ht
    rw [attach, build, tree] at ht
    obtain ⟨tl, htl, ht⟩ := bind_eq_ok.mp ht
    obtain ⟨tr, htr, ht⟩ := bind_eq_ok.mp ht
    cases ht
    refine (QueryTree.supplies_join (hleft l rfl tl htl) (hright tr htr)).weaken ?_
    rintro name ⟨ref, ⟨-, href⟩ | href, rfl⟩
    · exact .inl ⟨ref, href, rfl⟩
    · exact .inr ⟨ref, href, rfl⟩

private theorem supplies_tableGet {id : TableId} {columns : List Nat} {predicates : List Expr}
    (hF : ∀ ref, F ref → ref.table = (c.table id).schema.name ∧
      ∃ column ∈ columns, (c.table id).schema.columnIndex? ref.field = some column)
    (hpredicates : ∀ e ∈ predicates, e.hasAggregate = false ∧ ∀ ref ∈ e.fields, F ref) :
    (leaf c (.tableGet id columns .read predicates)).Supplies R c policy F := by
  intro t ht
  rw [leaf, build, tree] at ht
  obtain ⟨_, _, ht⟩ := bind_eq_ok.mp ht
  obtain ⟨s, hs, ht⟩ := bind_eq_ok.mp ht
  cases ht
  obtain ⟨names, rfl, hlength, hnames⟩ := create_eq_ok hs
  refine QueryTree.supplies_scan ?_ fun e he =>
    Expr.within_names (hpredicates e he).1 (hpredicates e he).2
  rintro name ⟨ref, href, rfl⟩
  obtain ⟨htable, column, hcolumn, hindex⟩ := hF ref href
  obtain ⟨k, hk⟩ := List.mem_iff_getElem?.mp hcolumn
  obtain ⟨col, hcol, hname⟩ := hnames k column hk
  obtain ⟨col', hcol', hfield⟩ := TableSchema.columnIndex?_name hindex
  obtain rfl := Option.some.inj (hcol.symm.trans hcol')
  refine ⟨.qualified (c.table id).schema.name col.name, ?_, ?_⟩
  · rw [List.take_of_length_le hlength.le]
    exact List.mem_of_getElem? hname
  · simp [CellName.answers, CellName.qualified, hfield, htable]

private theorem supplies_subQuery {items : List SelectItem} (qualifier : String)
    (h : ∀ t, p.tree c policy = .ok t →
      t.Yields R (QueryTree.ShowsItems items) ExecError.Found)
    (hF : ∀ ref, F ref → ref.table = qualifier ∧ ref.field ∈ items.map (·.cellName.field)) :
    (build c (.subQuery qualifier) [p]).Supplies R c policy F := by
  intro t ht
  rw [build, tree] at ht
  obtain ⟨t', ht', rfl⟩ := map_eq_ok.mp ht
  refine (QueryTree.supplies_rename qualifier (h t' ht')).weaken ?_
  rintro name ⟨ref, href, rfl⟩
  obtain ⟨htable, hfield⟩ := hF ref href
  obtain ⟨item, hitem, hfield⟩ := List.mem_map.mp hfield
  exact ⟨item, hitem, by rw [htable, hfield]⟩

private theorem shows_ofSourceless (h : ofSourceless c s = .ok p) :
    ∀ t, p.tree c policy = .ok t → t.Yields R (QueryTree.ShowsItems s.items) ExecError.Found := by
  unfold ofSourceless at h
  split at h
  · cases h
  · rename_i hclauses
    split at h
    · cases h
    · rename_i htables
      cases h
      rintro t ⟨⟩
      apply QueryTree.yields_literal
      intro row
      refine ⟨RowView.supplies_projected ExecError.found_of_computing fun item hitem => ?_, .owned row,
        rfl⟩
      have haggregate : item.expr.hasAggregate = false := by
        simp only [Bool.or_eq_true, not_or, Select.isAggregate, List.any_eq_true, not_exists,
          not_and, Bool.not_eq_true] at hclauses
        exact hclauses.2.1.2 item hitem
      have hfields : ∀ ref ∈ item.expr.fields, False := by
        intro ref href
        have hmem : ref.table ∈ item.expr.tables := Sorted.mem_ofList.mpr (List.mem_map_of_mem href)
        have hnone := List.findSome?_eq_none_iff.mp htables item hitem
        rw [List.head?_eq_none_iff.mp hnone] at hmem
        cases hmem
      have hrow : (RowView.owned row).Supplies ExecError.Found (Expr.Names fun _ => False) :=
        (RowView.supplies_owned ExecError.found_of_computing row).weaken fun name hname => by
          obtain ⟨_, hfalse, _⟩ := hname
          exact hfalse.elim
      exact hrow.eval ExecError.found_of_computing (Expr.within_names haggregate hfields)

/-- The plan of a query with groups is only made if what stands above them passes the checks. -/
private theorem formsGroups_of_finish {rest : List Expr} (h : finish c s rest p = .ok q)
    (haggregate : s.isAggregate = true) : s.FormsGroups := by
  obtain ⟨g, hg, _⟩ := finish_eq_ok h
  obtain ⟨_, hg⟩ := hg.resolve_right fun hplain => by rw [haggregate] at hplain; cases hplain.1
  obtain ⟨hungrouped, hkeys, _⟩ := grouped_eq_ok hg
  constructor
  case ungrouped => exact List.findSome?_eq_none_iff.mp hungrouped
  case keys =>
    intro e he
    simpa using List.find?_eq_none.mp hkeys e he

/-! ### Sources -/

/-- What the sources from the `k`-th on are to read and to test is resolved. -/
structure Resolves (c : Catalog) (scope : List ScopeEntry) (needs : Needs) (k : Nat)
    (parts : List (List Nat × List Expr)) (sources : List FromItem) : Prop where
  entries : ∀ (j : Nat) item, sources[j]? = some item → scope[k + j]? = some (.ofFromItem c item)
  columns : ∀ j : Nat, (parts[j]?.getD ([], [])).1 = needs[k + j]?.getD []
  terms : ∀ j : Nat, ∀ e ∈ (parts[j]?.getD ([], [])).2, e.hasAggregate = false ∧
    ∀ ref ∈ e.fields, needs.Offers scope (k + j) ref
  joins : ∀ (j : Nat) source on, sources[j]? = some ⟨source, some on⟩ → on.hasAggregate = false ∧
    ∀ ref ∈ on.fields, ∃ i ≤ k + j, needs.Offers scope i ref

section

variable {scope : List ScopeEntry} {needs : Needs} {k : Nat} {parts : List (List Nat × List Expr)}
  {item : FromItem} {sources : List FromItem}

private theorem Resolves.tail (h : Resolves c scope needs k parts (item :: sources)) :
    Resolves c scope needs (k + 1) parts.tail sources where
  entries j item' hj := by
    rw [Nat.add_right_comm]
    exact h.entries (j + 1) item' hj
  columns j := by
    rw [List.getElem?_tail, Nat.add_right_comm]
    exact h.columns (j + 1)
  terms j e he := by
    rw [List.getElem?_tail] at he
    rw [Nat.add_right_comm]
    exact h.terms (j + 1) e he
  joins j source on hj := by
    rw [Nat.add_right_comm]
    exact h.joins (j + 1) source on hj

/-- The next source is attached to those before it, and then all of them supply their fields. -/
private theorem supplies_source {left : Option Plan} {isTable : Bool}
    (h : Resolves c scope needs k parts (item :: sources)) (hnone : left = none → k = 0)
    (hleft : ∀ l, left = some l → l.Supplies R c policy fun ref => ∃ i < k, needs.Offers scope i ref)
    (hp : p.Supplies R c policy (needs.Offers scope k))
    (hq : applyOn c item.on (attach c options isTable left p) = .ok q) :
    q.Supplies R c policy fun ref => ∃ i < k + 1, needs.Offers scope i ref := by
  have hjoined : (attach c options isTable left p).Supplies R c policy
      fun ref => ∃ i < k + 1, needs.Offers scope i ref := by
    intro t ht
    refine (supplies_attach hleft hp t ht).weaken ?_
    rintro name ⟨ref, ⟨i, hi, hoffers⟩, rfl⟩
    refine ⟨ref, ?_, rfl⟩
    by_cases hik : i = k
    · exact .inr (hik ▸ hoffers)
    · refine .inl ⟨?_, i, by omega, hoffers⟩
      cases left with
      | none =>
        have := hnone rfl
        omega
      | some l => rfl
  apply supplies_applyOn hjoined _ hq
  intro on hon
  obtain ⟨source, on'⟩ := item
  cases hon
  obtain ⟨haggregate, hfields⟩ := h.joins 0 source on rfl
  refine ⟨haggregate, fun ref href => ?_⟩
  obtain ⟨i, hi, hoffers⟩ := hfields ref href
  exact ⟨i, Nat.lt_succ_of_le hi, hoffers⟩

private theorem supplies_tableSource {id : TableId} {on : Option Expr}
    (h : Resolves c scope needs k parts (⟨.table id, on⟩ :: sources)) :
    (leaf c (.tableGet id (parts.head?.getD ([], [])).1 .read
      (parts.head?.getD ([], [])).2)).Supplies R c policy (needs.Offers scope k) := by
  rw [List.head?_eq_getElem?]
  have hterms : ∀ e ∈ (parts[0]?.getD ([], [])).2, e.hasAggregate = false ∧
      ∀ ref ∈ e.fields, needs.Offers scope k ref := h.terms 0
  apply supplies_tableGet _ hterms
  rintro ref ⟨hfirst, entry, hentry, hoffer⟩
  have hscope := h.entries 0 _ rfl
  rw [Nat.add_zero, hentry] at hscope
  obtain rfl := Option.some.inj hscope
  obtain ⟨column, columns, hcolumn, hcolumns, hmem⟩ := hoffer
  obtain ⟨hlt, hname, _⟩ := List.findIdx?_eq_some_iff_getElem.mp hfirst
  rw [List.getElem?_eq_getElem hlt] at hentry
  rw [Option.some.inj hentry] at hname
  refine ⟨(eq_of_beq hname).symm, column, ?_, hcolumn⟩
  rw [h.columns 0, Nat.add_zero, hcolumns]
  exact hmem

private theorem supplies_querySource {select : Select} {qualifier : String} {on : Option Expr}
    (h : Resolves c scope needs k parts (⟨.query select qualifier, on⟩ :: sources))
    (hp : ∀ t, p.tree c policy = .ok t →
      t.Yields R (QueryTree.ShowsItems select.items) ExecError.Found) :
    (build c (.subQuery qualifier) [p]).Supplies R c policy (needs.Offers scope k) := by
  apply supplies_subQuery qualifier hp
  rintro ref ⟨hfirst, entry, hentry, hoffer⟩
  have hscope := h.entries 0 _ rfl
  rw [Nat.add_zero, hentry] at hscope
  obtain rfl := Option.some.inj hscope
  obtain ⟨hlt, hname, _⟩ := List.findIdx?_eq_some_iff_getElem.mp hfirst
  rw [List.getElem?_eq_getElem hlt] at hentry
  rw [Option.some.inj hentry] at hname
  exact ⟨(eq_of_beq hname).symm, hoffer⟩

end

private theorem resolves_splitFilter {needs : Needs} (hs : s.Traceable c)
    (hneeds : s.resolve (s.sources.map (ScopeEntry.ofFromItem c)) = .ok needs)
    (hfilter : checkFilter s.filter = .ok ()) :
    let scope := s.sources.map (ScopeEntry.ofFromItem c)
    let split := splitFilter scope s.filter
    Resolves c scope needs 0 (needs.zip split.pushed) s.sources ∧
      ∀ e ∈ split.rest, e.hasAggregate = false ∧
        ∀ ref ∈ e.fields, ∃ i < s.sources.length, needs.Offers scope i ref := by
  intro scope split
  have hscope : scope.length = s.sources.length := List.length_map _
  obtain ⟨hlength, hclauses, hons⟩ := Select.offers_resolve hscope.symm hneeds
  have hfilterFields : ∀ e ∈ s.filter.toList, ∀ ref ∈ e.fields, ∃ i < s.sources.length,
      needs.Offers scope i ref := by
    intro e he ref href
    obtain ⟨i, hoffers⟩ := hclauses e (by simp [Select.clauses, Option.mem_toList.mp he]) ref href
    exact ⟨i, hscope ▸ (List.findIdx?_eq_some_iff_getElem.mp hoffers.1).1, hoffers⟩
  have hfilterCalls : ∀ e ∈ s.filter.toList, e.hasAggregate = false := by
    intro e he
    rw [Option.mem_toList.mp he] at hfilter
    exact hasAggregate_of_checkFilter hfilter
  have hterms : ∀ t ∈ s.filter.toList.flatMap Expr.conjuncts, t.hasAggregate = false ∧
      ∀ ref ∈ t.fields, ∃ i < s.sources.length, needs.Offers scope i ref := by
    intro t ht
    obtain ⟨e, he, ht⟩ := List.mem_flatMap.mp ht
    exact ⟨Expr.hasAggregate_conjuncts (hfilterCalls e he) ht,
      fun ref href => hfilterFields e he ref (Expr.fields_conjuncts ht href)⟩
  have hpushed : split.pushed.length = scope.length := length_splitFilter s.filter
  have hpart : ∀ j : Nat, (needs.zip split.pushed)[j]?.getD ([], []) =
      (needs[j]?.getD [], split.pushed[j]?.getD []) := by
    intro j
    by_cases hj : j < scope.length
    · rw [List.getElem?_eq_getElem (by simp [hlength, hpushed, hj]),
        List.getElem?_eq_getElem (hlength ▸ hj), List.getElem?_eq_getElem (hpushed ▸ hj)]
      simp
    · rw [List.getElem?_eq_none (by simp [hlength, hpushed]; omega),
        List.getElem?_eq_none (by omega), List.getElem?_eq_none (by omega)]
      rfl
  constructor
  · constructor
    case entries =>
      intro j item hj
      rw [Nat.zero_add, List.getElem?_map, hj]
      rfl
    case columns =>
      intro j
      rw [hpart, Nat.zero_add]
    case terms =>
      intro j e he
      rw [hpart] at he
      by_cases hsingle : s.sources.length = 1
      · rw [show split = _ from splitFilter_single s.filter (hscope.trans hsingle),
          List.getElem?_map] at he
        cases hj : scope[j]? <;> simp [hj] at he
      · rw [pushed_splitFilter s.filter (hscope ▸ hsingle)] at he
        cases hj : scope[j]? with
        | none => simp [hj] at he
        | some entry =>
          simp only [hj, Option.map_some, Option.getD_some, List.mem_filter,
            decide_eq_true_eq] at he
          obtain ⟨haggregate, hfields⟩ := hterms e he.1
          refine ⟨haggregate, fun ref href => ?_⟩
          obtain ⟨i, _, hoffers⟩ := hfields ref href
          have hfirst := hs.pushed hsingle e he.1 j he.2 ref href
          rw [Nat.zero_add, ← Option.some.inj (hoffers.1.symm.trans hfirst)]
          exact hoffers
    case joins =>
      intro j source on hj
      rw [Nat.zero_add]
      exact ⟨hs.joins _ (List.mem_of_getElem? hj) on rfl, hons j source on hj⟩
  · intro e he
    by_cases hsingle : s.sources.length = 1
    · rw [show split = _ from splitFilter_single s.filter (hscope.trans hsingle)] at he
      exact ⟨hfilterCalls e he, hfilterFields e he⟩
    · rw [rest_splitFilter s.filter (hscope ▸ hsingle)] at he
      exact hterms e (List.mem_of_mem_filter he)

mutual

/-- A traceable query that is planned shows its output and looks up nothing that is not found. -/
theorem shows_ofSelect : ∀ (s : Select) {p : Plan}, ofSelect c options s = .ok p →
    (∀ x ∈ s.queries, x.Traceable c) → ∀ t, p.tree c policy = .ok t →
    t.Yields R (QueryTree.ShowsItems s.items) ExecError.Found
  | ⟨items, sources, filter, groupBy, having, orderBy⟩, p, h, hqueries => by
    rw [Select.queries, List.forall_mem_cons] at hqueries
    obtain ⟨hs, hqueries⟩ := hqueries
    by_cases hsources : sources = []
    · subst hsources
      rw [ofSelect] at h
      split at h
      · cases h
      · exact shows_ofSourceless h
    · obtain ⟨needs, joins, hneeds, hfilter, hjoins, hfinish⟩ := ofSelect_eq_ok hsources h
      obtain ⟨hresolves, hrest⟩ := resolves_splitFilter hs hneeds hfilter
      have hjoined := supplies_ofSources sources hresolves hqueries (fun _ => rfl)
        (fun l hl => by cases hl) hjoins joins rfl
      obtain ⟨_, hclauses, _⟩ := Select.offers_resolve (List.length_map _).symm hneeds
      intro t ht
      obtain ⟨q, hq, rfl⟩ := tree_finish hfinish ht
      have hwithin : ∀ e ∈ (splitFilter (sources.map (ScopeEntry.ofFromItem c)) filter).rest,
          e.Within (Expr.Names fun ref => ∃ i < 0 + sources.length,
            needs.Offers (sources.map (ScopeEntry.ofFromItem c)) i ref) := by
        intro e he
        apply Expr.within_names (hrest e he).1
        rw [Nat.zero_add]
        exact (hrest e he).2
      apply QueryTree.supplies_finishing (QueryTree.supplies_filtering (hjoined q hq) hwithin) hs _
        (formsGroups_of_finish hfinish)
      intro e he ref href
      obtain ⟨i, hoffers⟩ := hclauses e he ref href
      refine ⟨i, ?_, hoffers⟩
      have hlt := (List.findIdx?_eq_some_iff_getElem.mp hoffers.1).1
      rwa [List.length_map, ← Nat.zero_add sources.length] at hlt

private theorem supplies_ofSources : ∀ (sources : List FromItem) {scope : List ScopeEntry}
    {needs : Needs} {k : Nat} {left out : Option Plan} {parts : List (List Nat × List Expr)},
    Resolves c scope needs k parts sources → (∀ x ∈ Select.queriesIn sources, x.Traceable c) →
    (left = none → k = 0) →
    (∀ l, left = some l → l.Supplies R c policy fun ref => ∃ i < k, needs.Offers scope i ref) →
    ofSources c options left parts sources = .ok out → ∀ p, out = some p →
    p.Supplies R c policy fun ref => ∃ i < k + sources.length, needs.Offers scope i ref
  | [], scope, needs, k, left, out, parts, _, _, _, hleft, h => by
    rw [ofSources] at h
    cases h
    exact hleft
  | ⟨.table id, on⟩ :: rest, scope, needs, k, left, out, parts, hresolves, hqueries, hnone, hleft, h => by
    rw [ofSources] at h
    obtain ⟨plan, hplan, h⟩ := bind_eq_ok.mp h
    have hsource := supplies_source hresolves hnone hleft (supplies_tableSource hresolves) hplan
    rw [List.length_cons, Nat.add_comm rest.length, ← Nat.add_assoc]
    exact supplies_ofSources rest hresolves.tail hqueries (fun hnone => by cases hnone)
      (fun l hl => Option.some.inj hl ▸ hsource) h
  | ⟨.query select qualifier, on⟩ :: rest, scope, needs, k, left, out, parts, hresolves, hqueries,
      hnone, hleft, h => by
    rw [Select.queriesIn, List.forall_mem_append] at hqueries
    rw [ofSources] at h
    obtain ⟨inner, hinner, h⟩ := bind_eq_ok.mp h
    obtain ⟨plan, hplan, h⟩ := bind_eq_ok.mp h
    have hquery := supplies_querySource hresolves (shows_ofSelect select hinner hqueries.1)
    have hsource := supplies_source hresolves hnone hleft hquery hplan
    rw [List.length_cons, Nat.add_comm rest.length, ← Nat.add_assoc]
    exact supplies_ofSources rest hresolves.tail hqueries.2 (fun hnone => by cases hnone)
      (fun l hl => Option.some.inj hl ▸ hsource) h

end

end Plan

end SnapshotSql
