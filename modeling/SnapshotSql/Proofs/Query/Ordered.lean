import SnapshotSql.Proofs.Query.Conjuncts
import SnapshotSql.Proofs.Query.Ordering
import SnapshotSql.Proofs.Query.Widened
/-! # Queries with an ORDER BY -/

namespace SnapshotSql

namespace Select

def ordered (keys : List SortKey) (s : Select) : Select := { s with orderBy := keys }

/-- The aggregate calls in the ON conditions of a query, which are looked up by their text. -/
def joinCalls (s : Select) : List AggregateCall :=
  s.sources.flatMap fun item => item.on.toList.flatMap Expr.calls

def LooksUp (s : Select) (name : CellName) : Prop :=
  (∃ ref ∈ s.references, name = .qualified ref.table ref.field) ∨
    ∃ call ∈ s.joinCalls, name = .plain call.render

/-- A call in an ON condition is not printed like a field that only the keys read. -/
def CallsApart (keys : List SortKey) (s : Select) : Prop :=
  ∀ call ∈ s.joinCalls, ∀ key ∈ keys, ∀ ref ∈ key.expr.fields, ref.field = call.render →
    ∃ ref' ∈ s.references, ref'.table = ref.table ∧ ref'.field = ref.field

variable {s : Select} {keys : List SortKey}

theorem within_looksUp {e : Expr} (hfields : e.fields ⊆ s.references) (hcalls : e.calls ⊆ s.joinCalls) :
    e.Within s.LooksUp where
  field ref href := .inl ⟨ref, hfields (Expr.plainFields_subset e href), rfl⟩
  call call hcall := .inr ⟨call, hcalls hcall, rfl⟩

theorem within_looksUp_clause {e : Expr} (he : e ∈ s.clauses) (haggregate : e.hasAggregate = false) :
    e.Within s.LooksUp := by
  refine within_looksUp (fun ref href => mem_references.mpr (.inl ⟨e, he, href⟩)) ?_
  rw [Expr.hasAggregate_eq_false.mp haggregate]
  exact List.nil_subset _

theorem within_looksUp_on {item : FromItem} {on : Expr} (hitem : item ∈ s.sources) (hon : on ∈ item.on) :
    on.Within s.LooksUp := by
  refine within_looksUp (fun ref href => mem_references.mpr (.inr ⟨item, hitem, on, hon, href⟩)) ?_
  intro call hcall
  exact List.mem_flatMap.mpr ⟨item, hitem,
    List.mem_flatMap.mpr ⟨on, Option.mem_toList.mpr hon, hcall⟩⟩

theorem mem_references_ordered {ref : FieldRef} (horder : s.orderBy = []) :
    ref ∈ (s.ordered keys).references ↔ ref ∈ s.references ∨ ∃ key ∈ keys, ref ∈ key.expr.fields := by
  have hclauses : (s.ordered keys).clauses = s.clauses ++ keys.map (·.expr) := by
    simp [clauses, ordered, horder]
  have hsources : (s.ordered keys).sources = s.sources := rfl
  simp only [mem_references, hclauses, hsources, List.mem_append, List.mem_map, or_and_right, exists_or,
    exists_exists_and_eq_and]
  exact or_right_comm

theorem isAggregate_ordered (horder : s.orderBy = [])
    (hkeys : ∀ key ∈ keys, key.expr.hasAggregate = false) :
    (s.ordered keys).isAggregate = s.isAggregate := by
  have hnone : keys.any (·.expr.hasAggregate) = false := List.any_eq_false.mpr (by simpa using hkeys)
  simp [isAggregate, ordered, horder, hnone]

end Select

namespace Plan

variable {R : Reader} {c : Catalog} {policy : ConflictPolicy} {options : PlannerOptions} {s : Select}
  {keys : List SortKey} {needs needs' : Needs} {p p' : Plan}

/-! ## Columns -/

/-- The columns that a query reads from a table besides, because of its keys, answer nothing that it
looks up without them. -/
private theorem widens_needs (horder : s.orderBy = []) (hcalls : s.CallsApart keys)
    (hneeds : s.resolve (s.sources.map (ScopeEntry.ofFromItem c)) = .ok needs)
    (hneeds' : (s.ordered keys).resolve (s.sources.map (ScopeEntry.ofFromItem c)) = .ok needs')
    {k : Nat} {id : TableId} {on : Option Expr} (hk : s.sources[k]? = some ⟨.table id, on⟩)
    {columns columns' : List Nat} (hcolumns : needs[k]? = some columns)
    (hcolumns' : needs'[k]? = some columns') :
    (c.table id).schema.Widens s.LooksUp columns columns' := by
  have hscope : s.sources.length = (s.sources.map (ScopeEntry.ofFromItem c)).length :=
    (List.length_map _).symm
  have hentry : (s.sources.map (ScopeEntry.ofFromItem c))[k]? =
      some ⟨(c.table id).schema.name, .columns (c.table id).schema⟩ := by
    rw [List.getElem?_map, hk]
    rfl
  generalize s.sources.map (ScopeEntry.ofFromItem c) = scope at *
  generalize (c.table id).schema = schema at *
  have hfirst : ∀ i ∈ columns', schema.First i := fun i hi =>
    Select.within_resolve hneeds' k columns' _ schema hcolumns' hentry rfl i hi
  have hhas : ∀ i, i ∈ columns ↔ ∃ ref ∈ s.references, ref.Names scope k i := fun i => by
    rw [← Select.has_iff hscope hneeds, Needs.Has, hcolumns]
    simp
  have hhas' : ∀ i, i ∈ columns' ↔ ∃ ref ∈ (s.ordered keys).references, ref.Names scope k i := fun i => by
    rw [← Select.has_iff (s := s.ordered keys) hscope hneeds', Needs.Has, hcolumns']
    simp
  refine ⟨fun i hi => ?_, hfirst, fun i hi hnot col hcol name hname => ?_⟩
  · obtain ⟨ref, href, hnames⟩ := (hhas i).mp hi
    exact (hhas' i).mpr ⟨ref, (Select.mem_references_ordered horder).mpr (.inl href), hnames⟩
  · have hunnamed : ∀ ref ∈ s.references, ¬ref.Names scope k i := fun ref href hnames =>
      hnot ((hhas i).mpr ⟨ref, href, hnames⟩)
    obtain ⟨ref, href, hnames⟩ := (hhas' i).mp hi
    obtain ⟨key, hkey, href⟩ : ∃ key ∈ keys, ref ∈ key.expr.fields :=
      ((Select.mem_references_ordered horder).mp href).resolve_left fun href => hunnamed ref href hnames
    -- The reference of the key has the names of the table and of the column.
    obtain ⟨htable, hfield⟩ : ref.table = schema.name ∧ ref.field = col.name := by
      obtain ⟨hindex, entry, schema', hentry', hschema, hcolumn⟩ := hnames
      obtain rfl := Option.some.inj (hentry.symm.trans hentry')
      cases hschema
      obtain ⟨col', hcol', hname⟩ := TableSchema.columnIndex?_name hcolumn
      obtain rfl := Option.some.inj (hcol.symm.trans hcol')
      obtain ⟨hlt, htable, _⟩ := List.findIdx?_eq_some_iff_getElem.mp hindex
      rw [List.getElem?_eq_getElem hlt] at hentry
      rw [Option.some.inj hentry, beq_iff_eq] at htable
      exact ⟨htable.symm, hname.symm⟩
    rw [Bool.eq_false_iff]
    intro hanswers
    obtain ⟨ref', href', htable', hfield'⟩ : ∃ ref' ∈ s.references, ref'.table = ref.table ∧
        ref'.field = ref.field := by
      rcases hname with ⟨ref', href', rfl⟩ | ⟨call, hcall, rfl⟩
      · simp only [CellName.answers, CellName.qualified, Option.isNone_some, Bool.false_or,
          Bool.and_eq_true, beq_iff_eq, Option.some.injEq] at hanswers
        exact ⟨ref', href', hanswers.2.symm.trans htable.symm, hanswers.1.symm.trans hfield.symm⟩
      · exact hcalls call hcall key hkey ref href (hfield.trans (CellName.field_of_answers hanswers))
    exact hunnamed ref' href' ((FieldRef.names_congr htable' hfield').mpr hnames)

private theorem within_splitFilter (hfilter : checkFilter s.filter = .ok ()) {scope : List ScopeEntry}
    {e : Expr} (he : e ∈ (splitFilter scope s.filter).pushed.flatten ++ (splitFilter scope s.filter).rest) :
    e.Within s.LooksUp := by
  obtain ⟨condition, hcondition, he⟩ := exists_of_mem_splitFilter he
  have hmem : condition ∈ s.clauses := by simp [Select.clauses, hcondition]
  have haggregate : condition.hasAggregate = false := by
    rw [hcondition] at hfilter
    exact hasAggregate_of_checkFilter hfilter
  rcases he with rfl | he
  · exact Select.within_looksUp_clause hmem haggregate
  · have hcalls := Expr.hasAggregate_eq_false.mp (Expr.hasAggregate_conjuncts haggregate he)
    refine Select.within_looksUp (fun ref href => ?_) (hcalls ▸ List.nil_subset _)
    exact Select.mem_references.mpr (.inl ⟨condition, hmem, Expr.fields_conjuncts he href⟩)

private theorem partsWiden_ordered (horder : s.orderBy = []) (hcalls : s.CallsApart keys)
    (hneeds : s.resolve (s.sources.map (ScopeEntry.ofFromItem c)) = .ok needs)
    (hneeds' : (s.ordered keys).resolve (s.sources.map (ScopeEntry.ofFromItem c)) = .ok needs')
    (hfilter : checkFilter s.filter = .ok ()) :
    let pushed := (splitFilter (s.sources.map (ScopeEntry.ofFromItem c)) s.filter).pushed
    PartsWiden c s.LooksUp s.sources (needs.zip pushed) (needs'.zip pushed) := by
  intro pushed k item hk
  have hscope : s.sources.length = (s.sources.map (ScopeEntry.ofFromItem c)).length :=
    (List.length_map _).symm
  have hlt : k < (s.sources.map (ScopeEntry.ofFromItem c)).length :=
    hscope ▸ (List.getElem?_eq_some_iff.mp hk).1
  have hcolumns := List.getElem?_eq_getElem ((Select.offers_resolve hscope hneeds).1 ▸ hlt)
  have hcolumns' := List.getElem?_eq_getElem
    ((Select.offers_resolve (s := s.ordered keys) hscope hneeds').1 ▸ hlt)
  have hpushed : k < pushed.length := length_splitFilter s.filter ▸ hlt
  have hpredicates := List.getElem?_eq_getElem hpushed
  refine ⟨_, _, _, List.getElem?_zip_eq_some.mpr ⟨hcolumns, hpredicates⟩,
    List.getElem?_zip_eq_some.mpr ⟨hcolumns', hpredicates⟩, ?_, ?_⟩
  · intro e he
    exact within_splitFilter hfilter (List.mem_append_left _
      (List.mem_flatten.mpr ⟨_, List.mem_of_getElem? hpredicates, he⟩))
  · rintro id hid
    obtain ⟨source, on⟩ := item
    cases hid
    exact widens_needs horder hcalls hneeds hneeds' hk hcolumns hcolumns'

/-! ## Groups -/

private theorem grouped_fields (hkeys : ∀ key ∈ keys, key.expr.hasAggregate = false)
    {g : Plan} (h : grouped c (s.ordered keys) p = .ok g) {key : SortKey} (hkey : key ∈ keys)
    {ref : FieldRef} (href : ref ∈ key.expr.fields) :
    ∃ ref' ∈ s.references, ref'.table = ref.table ∧ ref'.field = ref.field := by
  obtain ⟨hungrouped, _⟩ := grouped_eq_ok h
  have hnone := List.findSome?_eq_none_iff.mp hungrouped key.expr
    (List.mem_append_right _ (List.mem_map_of_mem hkey))
  rw [← Expr.plainFields_of_calls (Expr.hasAggregate_eq_false.mp (hkeys key hkey))] at href
  have hany := List.find?_eq_none.mp hnone ref href
  rw [Bool.not_eq_true, Bool.not_eq_false', List.any_eq_true] at hany
  obtain ⟨ref', href', heq⟩ := hany
  rw [Bool.and_eq_true, beq_iff_eq, beq_iff_eq] at heq
  obtain ⟨e, he, hfield⟩ := List.mem_filterMap.mp href'
  refine ⟨ref', Select.mem_references.mpr (.inl ⟨e, ?_, ?_⟩), heq⟩
  · have he : e ∈ s.groupBy := he
    simp [Select.clauses, he]
  · split at hfield
    · cases hfield
      exact List.mem_singleton_self _
    · cases hfield

private theorem grouped_ordered (horder : s.orderBy = [])
    (hkeys : ∀ key ∈ keys, key.expr.hasAggregate = false) {g g' : Plan}
    (hg : grouped c s p = .ok g) (hg' : grouped c (s.ordered keys) p = .ok g') : g = g' := by
  have hcalls : Expr.distinctCalls ((s.ordered keys).items.map (·.expr) ++
      (s.ordered keys).having.toList ++ (s.ordered keys).orderBy.map (·.expr)) =
        Expr.distinctCalls (s.items.map (·.expr) ++ s.having.toList ++ s.orderBy.map (·.expr)) := by
    have hnone : (keys.map (·.expr)).flatMap Expr.calls = [] := by
      rw [List.flatMap_eq_nil_iff, List.forall_mem_map]
      exact fun key hkey => Expr.hasAggregate_eq_false.mp (hkeys key hkey)
    simp only [Expr.distinctCalls, Select.ordered, horder, List.flatMap_append, hnone, List.map_nil,
      List.flatMap_nil]
  obtain ⟨_, _, _, rfl⟩ := grouped_eq_ok hg
  obtain ⟨_, _, _, rfl⟩ := grouped_eq_ok hg'
  rw [hcalls]
  rfl

/-! ## Plans -/

private theorem sources_ordered (hne : keys ≠ []) (h : ofSelect c options (s.ordered keys) = .ok p) :
    s.sources ≠ [] := by
  intro hsources
  obtain ⟨items, sources, filter, groupBy, having, orderBy⟩ := s
  cases hsources
  rw [Select.ordered, ofSelect] at h
  split at h
  · cases h
  · simp only [List.isEmpty_nil, if_true, ofSourceless, List.isEmpty_eq_false_iff.mpr hne, Bool.not_false,
      Bool.or_true, Bool.true_or] at h
    cases h

variable (policy) in
/-- A query that is planned with keys and without is the same, but for the sort and wider scans below, which
its select list cannot tell apart. -/
theorem widens_ordered (hR : R.Formed c) (horder : s.orderBy = []) (hne : keys ≠ [])
    (hkeys : ∀ key ∈ keys, key.expr.hasAggregate = false) (hcalls : s.CallsApart keys)
    (hp : ofSelect c options s = .ok p) (hp' : ofSelect c options (s.ordered keys) = .ok p') :
    ∃ g g' N, p = build c (.project s.items) [g] ∧
      p' = build c (.project s.items) [build c (.sort keys) [g']] ∧ Widens R c policy N g g' ∧
      ∀ item ∈ s.items, item.expr.Within N := by
  have hsources := sources_ordered hne hp'
  obtain ⟨needs, joins, hneeds, hfilter, hjoins, hfinish⟩ := ofSelect_eq_ok hsources hp
  obtain ⟨needs', joins', hneeds', _, hjoins', hfinish'⟩ := ofSelect_eq_ok (s := s.ordered keys) hsources hp'
  have hscope : s.sources.length = (s.sources.map (ScopeEntry.ofFromItem c)).length :=
    (List.length_map _).symm
  obtain ⟨g, hg, rfl⟩ := finish_eq_ok hfinish
  obtain ⟨g', hg', rfl⟩ := finish_eq_ok hfinish'
  have hplain : s.orderBy.isEmpty = true := List.isEmpty_iff.mpr horder
  have hsort : ¬(s.ordered keys).orderBy.isEmpty = true := fun h => hne (List.isEmpty_iff.mp h)
  rw [Select.isAggregate_ordered horder hkeys] at hg'
  rw [if_pos hplain, if_neg hsort]
  refine ⟨g, g', ?_⟩
  rcases hg with ⟨haggregate, hg⟩ | ⟨haggregate, rfl⟩
  · -- Below a grouping nothing changes.
    have hg' := (hg'.resolve_right fun h => by rw [haggregate] at h; cases h.1).2
    obtain rfl : needs = needs' := by
      refine Select.resolve_unique (t := s.ordered keys) hscope hscope hneeds hneeds' fun i column => ?_
      constructor
      · rintro ⟨ref, href, hnames⟩
        exact ⟨ref, (Select.mem_references_ordered horder).mpr (.inl href), hnames⟩
      · rintro ⟨ref, href, hnames⟩
        rcases (Select.mem_references_ordered horder).mp href with href | ⟨key, hkey, href⟩
        · exact ⟨ref, href, hnames⟩
        · obtain ⟨ref', href', htable, hfield⟩ := grouped_fields hkeys hg' hkey href
          exact ⟨ref', href', (FieldRef.names_congr htable hfield).mpr hnames⟩
    obtain rfl : joins = joins' := Option.some.inj (Except.ok.inj (hjoins.symm.trans hjoins'))
    obtain rfl := grouped_ordered horder hkeys hg hg'
    exact ⟨fun _ => True, rfl, rfl, .refl _, fun item _ => item.expr.within_all⟩
  · have hg' := (hg'.resolve_left fun h => by rw [haggregate] at h; cases h.1).2
    rw [hg']
    refine ⟨s.LooksUp, rfl, rfl, ?_, fun item hitem => ?_⟩
    · obtain ⟨out', hout', hwidens⟩ := widens_ofSources policy hR s.sources .none
        (partsWiden_ordered horder hcalls hneeds hneeds' hfilter)
        (fun item hitem on hon => Select.within_looksUp_on hitem hon) hjoins
      cases hout'.symm.trans hjoins'
      cases hwidens with
      | some hwidens =>
        exact widens_residual (fun e he => within_splitFilter hfilter (List.mem_append_right _ he)) hwidens
    · refine Select.within_looksUp_clause ?_ ?_
      · simp only [Select.clauses, List.mem_append]
        exact .inl (.inl (.inl (.inl (List.mem_map_of_mem hitem))))
      · have hnone := haggregate
        simp only [Select.isAggregate, Bool.or_eq_false_iff, List.any_eq_false] at hnone
        simpa using hnone.1.2 item hitem

end Plan

/-! ## Rows -/

namespace QueryTree

variable {R : Reader} {keys : List SortKey} {q : QueryTree} {rs : List (RowView × Bool)}

/-- Rows can be sorted if they have their keys, can be copied, and no column of keys is blurred. -/
structure Sortable (keys : List SortKey) (rs : List (RowView × Bool)) : Prop where
  evaluated : ∀ r ∈ rs, ∀ key ∈ keys, ∃ a, r.1.eval key.expr = .ok a
  copied : ∀ r ∈ rs, ∃ row, r.1.copy = .ok row
  unblurred : ∀ key ∈ keys, Value.Unblurred (rs.filterMap fun r => (r.1.eval key.expr).toOption)

theorem completed_sort_perm (h : q.completed R = some rs) (hsortable : Sortable keys rs) :
    ∃ copies outs, (sort keys q).completed R = some outs ∧ LookAlike rs copies ∧ outs.Perm copies := by
  have hrows : ∀ r ∈ rs, ∃ k, KeyedRow.ofView keys r.1 (.of r.2) = .ok k := by
    intro r hr
    obtain ⟨values, hvalues⟩ := KeyedRow.evalAll_total (hsortable.evaluated r hr)
    obtain ⟨row, hrow⟩ := hsortable.copied r hr
    exact ⟨⟨values, row, .of r.2⟩, KeyedRow.ofView_eq_ok.mpr ⟨hvalues, hrow, rfl⟩⟩
  obtain ⟨keyed, hkeyed⟩ := mapM_total hrows
  have hfold : rs.foldlM (fun rows r => Operator.collectKeyed keys {} rows r.1 (.of r.2)) #[] =
      .ok keyed.toArray := (foldlM_push hkeyed #[]).trans (by rw [Array.empty_append])
  have hlisted : (rs.map fun r => (r.1, Step.of r.2)).mapM (fun r => KeyedRow.ofView keys r.1 r.2) =
      .ok keyed := by
    rw [List.mapM_map]
    exact hkeyed
  have hcolumns : ∀ key ∈ keys,
      Value.Unblurred (Operator.column key.expr (rs.map fun r => (r.1, Step.of r.2))) := by
    intro key hkey
    rw [Operator.column, List.filterMap_map]
    exact hsortable.unblurred key hkey
  have hsort := StableSort.sort_eq_insertionSort (KeyedRow.orders_views hlisted hcolumns).2
  have hsorted := KeyedRow.sorted_eq_ok.mpr ⟨_, hsort, rfl⟩
  refine ⟨_, replayed _, ?_, ?_, (KeyedRow.sorted_perm hsorted).map _⟩
  · rw [completed_sort, h, Option.bind_some, hfold]
    simp only [bind, Except.bind, hsorted]
    rfl
  · exact LookAlike.of_copies _ (fun r k hk => (KeyedRow.ofView_eq_ok.mp hk).2) hkeyed

end QueryTree

end SnapshotSql
