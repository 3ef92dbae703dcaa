import SnapshotSql.Proofs.Query.Labels
import SnapshotSql.Proofs.Query.Resolved
import SnapshotSql.Proofs.Session.Planned
/-! # Texts of statements -/

namespace SnapshotSql

/-! ## Statements -/

mutual

/-- The names and the text literals in a query: those of its expressions, the names of its tables and
sub-queries, and what its columns are called. -/
def Select.texts (c : Catalog) : Select → List String
  | ⟨items, sources, filter, groupBy, having, orderBy⟩ =>
    items.flatMap SelectItem.texts ++ textsOf c sources ++ filter.toList.flatMap Expr.texts ++
      groupBy.flatMap Expr.texts ++ having.toList.flatMap Expr.texts ++ orderBy.flatMap SortKey.texts

def Select.textsOf (c : Catalog) : List FromItem → List String
  | [] => []
  | ⟨.table id, on⟩ :: rest => c.tableName id :: on.toList.flatMap Expr.texts ++ textsOf c rest
  | ⟨.query select qualifier, on⟩ :: rest =>
    qualifier :: select.texts c ++ on.toList.flatMap Expr.texts ++ textsOf c rest

end

def Assignment.texts (a : Assignment) : List String := a.field :: a.value.texts

/-- The names and the text literals in a statement, except those in the records to insert. -/
def Statement.texts (c : Catalog) : Statement → List String
  | compute exprs => exprs.flatMap Expr.texts
  | select query => query.texts c
  | insert table _ => [c.tableName table]
  | delete table filter => c.tableName table :: filter.toList.flatMap Expr.texts
  | update table sets filter =>
    c.tableName table :: sets.flatMap Assignment.texts ++ filter.toList.flatMap Expr.texts
  | explain stmt => stmt.texts c
  | createTable name columns => name :: columns.map (·.name)
  | renameTable table newName => [c.tableName table, newName]
  | showTables | begin | commit | rollback => []

/-! ## Expressions -/

namespace Expr

mutual

theorem texts_conjuncts : ∀ e : Expr, e.conjuncts.flatMap texts = e.texts
  | .junction .all terms => textsAll_conjuncts terms
  | .junction .any _ | .field _ | .literal _ | .comparison .. | .arithmetic .. | .isNull ..
  | .aggregate .. => List.flatMap_singleton ..

theorem textsAll_conjuncts : ∀ es : List Expr, (conjunctsAll es).flatMap texts = textsAll es
  | [] => rfl
  | e :: es => by
    rw [conjunctsAll, List.flatMap_append, texts_conjuncts e, textsAll_conjuncts es, textsAll]

end

theorem texts_ofConjuncts? (es : List Expr) :
    (ofConjuncts? es).toList.flatMap texts = es.flatMap texts := by
  match es with
  | [] => rfl
  | [e] => rfl
  | e :: e' :: es =>
    show [junction .all _].flatMap texts = _
    rw [List.flatMap_singleton, texts, textsAll_eq_flatMap]

mutual

theorem texts_subset_of_mem_calls {call : AggregateCall} :
    ∀ {e : Expr}, call ∈ e.calls → call.texts ⊆ e.texts
  | .field _, h | .literal _, h => by cases h
  | .comparison _ l r, h | .arithmetic _ l (some r), h => by
    rw [texts]
    rcases List.mem_append.mp h with h | h
    · exact List.subset_append_of_subset_left _ (texts_subset_of_mem_calls h)
    · exact List.subset_append_of_subset_right _ (texts_subset_of_mem_calls h)
  | .junction _ terms, h => @textsAll_subset_of_mem_calls call terms h
  | .arithmetic _ e none, h | .isNull e _, h => texts_subset_of_mem_calls (e := e) h
  | .aggregate fn arg, h => by
    rw [List.mem_singleton.mp h]
    exact List.Subset.refl _

theorem textsAll_subset_of_mem_calls {call : AggregateCall} :
    ∀ {es : List Expr}, call ∈ callsAll es → call.texts ⊆ textsAll es
  | [], h => by cases h
  | e :: es, h => by
    rw [textsAll]
    rcases List.mem_append.mp h with h | h
    · exact List.subset_append_of_subset_left _ (texts_subset_of_mem_calls h)
    · exact List.subset_append_of_subset_right _ (textsAll_subset_of_mem_calls h)

end

theorem texts_distinctCalls (es : List Expr) :
    (distinctCalls es).flatMap AggregateCall.texts ⊆ es.flatMap texts := by
  intro t ht
  obtain ⟨call, hcall, ht⟩ := List.mem_flatMap.mp ht
  obtain ⟨e, he, hcall⟩ := List.mem_flatMap.mp (mem_of_mem_distinctCalls hcall)
  exact List.mem_flatMap.mpr ⟨e, he, texts_subset_of_mem_calls hcall ht⟩

end Expr

/-- What stands above the groups of a query shows its texts in the select list, in HAVING or in ORDER BY. -/
theorem Select.texts_above (s : Select) : s.above.flatMap Expr.texts ⊆
    s.items.flatMap SelectItem.texts ++ s.having.toList.flatMap Expr.texts ++
      s.orderBy.flatMap SortKey.texts := by
  intro t ht
  rw [above, List.flatMap_append, List.flatMap_append, List.flatMap_map, List.flatMap_map] at ht
  rcases List.mem_append.mp ht with ht | ht
  · rcases List.mem_append.mp ht with ht | ht
    · obtain ⟨item, hitem, ht⟩ := List.mem_flatMap.mp ht
      refine List.mem_append_left _ (List.mem_append_left _ (List.mem_flatMap.mpr ⟨item, hitem, ?_⟩))
      exact List.mem_append_left _ ht
    · exact List.mem_append_left _ (List.mem_append_right _ ht)
  · exact List.mem_append_right _ ht

/-! ## Nodes above nodes -/

namespace Plan

variable {c : Catalog} {options : PlannerOptions} {p q : Plan} {s : Select}

theorem texts_build (node : PlanNode) (children : List Plan) :
    (build c node children).texts c = node.texts c ++ children.flatMap (texts c) := by
  have hchildren : ∀ ps : List Plan,
      (nodesAll ps).flatMap (PlanNode.texts c) = ps.flatMap (texts c) := by
    intro ps
    induction ps with
    | nil => rfl
    | cons p ps ih => rw [nodesAll, List.flatMap_append, ih, List.flatMap_cons, texts]
  rw [texts, build, nodes, List.flatMap_cons, hchildren]

theorem texts_over (node : PlanNode) (p : Plan) :
    (build c node [p]).texts c = node.texts c ++ p.texts c := by
  rw [texts_build, List.flatMap_singleton]

theorem texts_leaf (node : PlanNode) : (leaf c node).texts c = node.texts c :=
  (texts_build node []).trans (List.append_nil _)

theorem texts_filtered (condition : Expr) (p : Plan) :
    (filtered c condition p).texts c = condition.texts ++ p.texts c := texts_over _ p

theorem texts_residual (rest : List Expr) (p : Plan) :
    (residual c rest p).texts c = rest.flatMap Expr.texts ++ p.texts c := by
  rw [residual, ← Expr.texts_ofConjuncts?]
  cases Expr.ofConjuncts? rest with
  | none => rfl
  | some condition =>
    rw [Option.elim_some, texts_filtered, Option.toList_some, List.flatMap_singleton]

theorem texts_attach (isTable : Bool) (left : Option Plan) (p : Plan) :
    (attach c options isTable left p).texts c = left.toList.flatMap (texts c) ++ p.texts c := by
  cases left with
  | none => rfl
  | some l =>
    have hright : (if options.cacheInner && isTable then build c .cached [p] else p).texts c =
        p.texts c := by
      split
      · exact texts_over .cached p
      · rfl
    rw [attach, texts_build, List.flatMap_cons, List.flatMap_singleton, hright, Option.toList_some,
      List.flatMap_singleton]
    rfl

theorem texts_applyOn {on : Option Expr} (h : applyOn c on p = .ok q) :
    q.texts c = on.toList.flatMap Expr.texts ++ p.texts c := by
  cases on with
  | none =>
    cases h
    rfl
  | some on =>
    obtain ⟨_, _, h⟩ := bind_eq_ok.mp h
    cases h
    rw [texts_filtered, Option.toList_some, List.flatMap_singleton]

def HasTexts (c : Catalog) (ts : List String) (p : Plan) : Prop := ∀ t, t ∈ p.texts c ↔ t ∈ ts

/-- Groups show what they are made by, what HAVING shows, and the calls of what stands above them. -/
private theorem texts_grouped (h : grouped c s p = .ok q) : q.texts c =
    s.having.toList.flatMap Expr.texts ++ ((Expr.distinctCalls s.above).flatMap AggregateCall.texts ++
      s.groupBy.flatMap Expr.texts ++ p.texts c) := by
  have hhaving : ∀ g : Plan, (s.having.elim id (filtered c) g).texts c =
      s.having.toList.flatMap Expr.texts ++ g.texts c := by
    intro g
    cases s.having with
    | none => rfl
    | some having => rw [Option.elim_some, texts_filtered, Option.toList_some, List.flatMap_singleton]
  obtain ⟨_, _, _, rfl⟩ := grouped_eq_ok h
  exact (hhaving _).trans (congrArg _ (texts_over _ p))

private theorem hasTexts_finish {rest : List Expr} (h : finish c s rest p = .ok q) :
    q.HasTexts c (s.items.flatMap SelectItem.texts ++ rest.flatMap Expr.texts ++
      s.groupBy.flatMap Expr.texts ++ s.having.toList.flatMap Expr.texts ++
      s.orderBy.flatMap SortKey.texts ++ p.texts c) := by
  obtain ⟨g, hg, rfl⟩ := finish_eq_ok h
  have hsorted : (if s.orderBy.isEmpty then g else build c (.sort s.orderBy) [g]).texts c =
      s.orderBy.flatMap SortKey.texts ++ g.texts c := by
    cases s.orderBy with
    | nil => rfl
    | cons key keys => exact texts_over _ g
  intro t
  rw [texts_over, hsorted, PlanNode.texts]
  rcases hg with ⟨_, hg⟩ | ⟨hplain, rfl⟩
  · have hcalls : t ∈ (Expr.distinctCalls s.above).flatMap AggregateCall.texts →
        t ∈ s.items.flatMap SelectItem.texts ++ s.having.toList.flatMap Expr.texts ++
          s.orderBy.flatMap SortKey.texts :=
      fun ht => s.texts_above (Expr.texts_distinctCalls _ ht)
    rw [texts_grouped hg, texts_residual]
    simp only [List.mem_append] at hcalls ⊢
    grind
  · obtain ⟨hgroupBy, hhaving⟩ : s.groupBy = [] ∧ s.having = none := by
      simp only [Select.isAggregate, Bool.or_eq_false_iff] at hplain
      simpa using hplain.1.1
    rw [texts_residual, hgroupBy, hhaving]
    simp only [List.mem_append, List.flatMap_nil, Option.toList_none, List.not_mem_nil]
    grind

private theorem texts_ofSourceless (h : ofSourceless c s = .ok p) :
    p.texts c = s.items.flatMap SelectItem.texts ∧ s.filter = none ∧ s.groupBy = [] ∧ s.having = none ∧
      s.orderBy = [] := by
  refine ⟨?_, ?_⟩
  · rw [eq_of_ofSourceless h, texts_leaf, PlanNode.texts]
  · unfold ofSourceless at h
    split at h
    · cases h
    · rename_i hplain
      simp only [Bool.or_eq_true, not_or, Bool.not_eq_true, Option.isSome_eq_false_iff,
        Option.isNone_iff_eq_none, Bool.not_eq_false', List.isEmpty_iff] at hplain
      obtain ⟨⟨⟨⟨hfilter, hgroupBy⟩, hhaving⟩, horderBy⟩, _⟩ := hplain
      exact ⟨hfilter, hgroupBy, hhaving, horderBy⟩

/-! ## Sources -/

def TestsTable (part : List Nat × List Expr) (item : FromItem) : Prop :=
  ∀ select qualifier, item.source = .query select qualifier → part.2 = []

private theorem texts_splitFilter (scope : List ScopeEntry) (filter : Option Expr) (t : String) :
    t ∈ ((splitFilter scope filter).pushed.flatten ++ (splitFilter scope filter).rest).flatMap
      Expr.texts ↔ t ∈ filter.toList.flatMap Expr.texts := by
  by_cases hsingle : scope.length = 1
  · rw [splitFilter_single filter hsingle, List.map_const', List.flatten_replicate_nil, List.nil_append]
  · have hterms : (filter.toList.flatMap Expr.conjuncts).flatMap Expr.texts =
        filter.toList.flatMap Expr.texts := by
      rw [List.flatMap_assoc]
      simp only [Expr.texts_conjuncts]
    rw [← hterms]
    simp only [List.mem_flatMap (f := Expr.texts), mem_splitFilter filter hsingle]

private theorem pushed_query {sources : List FromItem} {filter : Option Expr} {i : Nat}
    {terms : List Expr} {item : FromItem} {select : Select} {qualifier : String}
    (hpushed : (splitFilter (sources.map (ScopeEntry.ofFromItem c)) filter).pushed[i]? = some terms)
    (hitem : sources[i]? = some item) (hquery : item.source = .query select qualifier) : terms = [] := by
  have hscope : (sources.map (ScopeEntry.ofFromItem c))[i]? = some (.ofFromItem c item) := by
    rw [List.getElem?_map, hitem, Option.map_some]
  by_cases hsingle : (sources.map (ScopeEntry.ofFromItem c)).length = 1
  · rw [splitFilter_single filter hsingle, List.getElem?_map, hscope] at hpushed
    exact (Option.some.inj hpushed).symm
  · rw [pushed_splitFilter filter hsingle, hscope] at hpushed
    refine (Option.some.inj hpushed).symm.trans (List.filter_eq_nil_iff.mpr fun e _ htarget => ?_)
    obtain ⟨entry, hentry, htable, _⟩ := Expr.pushTarget?_eq_some (decide_eq_true_iff.mp htarget)
    cases hscope.symm.trans hentry
    rw [ScopeEntry.isTable, ScopeEntry.ofFromItem, hquery] at htable
    cases htable

private theorem testsTable_splitFilter {sources : List FromItem} {filter : Option Expr} {needs : Needs}
    (hlength : needs.length = sources.length) :
    List.Forall₂ TestsTable (needs.zip (splitFilter (sources.map (ScopeEntry.ofFromItem c)) filter).pushed)
      sources := by
  rw [List.forall₂_iff_get]
  refine ⟨by rw [List.length_zip, length_splitFilter, List.length_map, hlength, Nat.min_self], ?_⟩
  intro i hpart hitem select qualifier hquery
  have hpushed := (List.getElem?_zip_eq_some.mp (List.getElem?_eq_getElem hpart)).2
  exact pushed_query hpushed (List.getElem?_eq_getElem hitem) hquery

private theorem texts_zip {needs : Needs} {pushed : List (List Expr)} (h : pushed.length ≤ needs.length) :
    ((needs.zip pushed).flatMap fun part => part.2.flatMap Expr.texts) =
      pushed.flatten.flatMap Expr.texts := by
  rw [← List.flatMap_map Prod.snd (fun terms : List Expr => terms.flatMap Expr.texts), List.map_snd_zip h,
    List.flatten_eq_flatMap, List.flatMap_assoc]
  rfl

mutual

private theorem hasTexts_ofSelect : ∀ (s : Select) {p : Plan}, ofSelect c options s = .ok p →
    p.HasTexts c (s.texts c)
  | ⟨items, sources, filter, groupBy, having, orderBy⟩, p, h => by
    intro t
    by_cases hsources : sources = []
    · subst hsources
      rw [ofSelect] at h
      split at h
      · cases h
      · obtain ⟨hitems, hfilter, hgroupBy, hhaving, horderBy⟩ := texts_ofSourceless h
        simp only at hitems hfilter hgroupBy hhaving horderBy
        rw [hitems, hfilter, hgroupBy, hhaving, horderBy]
        simp [Select.texts, Select.textsOf]
    · obtain ⟨needs, joins, hneeds, _, hjoins, hfinish⟩ := ofSelect_eq_ok hsources h
      have hlength := (Select.offers_resolve (by rw [List.length_map]) hneeds).1
      rw [List.length_map] at hlength
      have hjoined := texts_ofSources sources (testsTable_splitFilter hlength) hjoins t
      have hwhere := texts_splitFilter (sources.map (ScopeEntry.ofFromItem c)) filter t
      rw [Option.toList_some, List.flatMap_singleton, texts_zip (by
        rw [length_splitFilter, List.length_map, hlength])] at hjoined
      rw [hasTexts_finish hfinish, Select.texts]
      simp only [List.mem_append, List.flatMap_append, Option.toList_none, List.flatMap_nil,
        List.not_mem_nil, false_or] at hjoined hwhere ⊢
      rw [hjoined, ← hwhere]
      grind

private theorem texts_ofSources : ∀ (sources : List FromItem) {left out : Option Plan}
    {parts : List (List Nat × List Expr)}, List.Forall₂ TestsTable parts sources →
    ofSources c options left parts sources = .ok out → ∀ t,
      t ∈ out.toList.flatMap (texts c) ↔ t ∈ left.toList.flatMap (texts c) ++
        (parts.flatMap fun part => part.2.flatMap Expr.texts) ++ Select.textsOf c sources
  | [], left, out, parts, hparts, h => by
    cases hparts
    rw [ofSources] at h
    cases h
    simp [Select.textsOf]
  | ⟨.table id, on⟩ :: rest, left, out, part :: parts, .cons _ hparts, h => by
    rw [ofSources] at h
    obtain ⟨plan, hplan, h⟩ := bind_eq_ok.mp h
    intro t
    rw [texts_ofSources rest hparts h, Option.toList_some, List.flatMap_singleton, texts_applyOn hplan,
      texts_attach, texts_leaf, Select.textsOf, PlanNode.texts, List.flatMap_cons]
    simp only [List.mem_append, List.mem_cons]
    grind
  | ⟨.query select qualifier, on⟩ :: rest, left, out, part :: parts, .cons hpart hparts, h => by
    rw [ofSources] at h
    obtain ⟨inner, hinner, h⟩ := bind_eq_ok.mp h
    obtain ⟨plan, hplan, h⟩ := bind_eq_ok.mp h
    intro t
    have hselect := hasTexts_ofSelect select hinner t
    rw [texts_ofSources rest hparts h, Option.toList_some, List.flatMap_singleton, texts_applyOn hplan,
      texts_attach, texts_over, Select.textsOf, PlanNode.texts, List.flatMap_cons, hpart select qualifier rfl]
    simp only [List.mem_append, List.mem_cons, List.flatMap_nil, List.not_mem_nil, hselect]
    grind

end

/-! ## Statements that write -/

private theorem texts_writeScan {table : TableId} {filter : Option Expr} {extra : List Expr}
    (h : writeScan c table filter extra = .ok p) :
    p.texts c = filter.toList.flatMap Expr.texts ++ [c.tableName table] := by
  obtain ⟨_, _, h⟩ := bind_eq_ok.mp h
  cases filter with
  | none =>
    cases h
    exact texts_leaf _
  | some filter =>
    obtain ⟨_, _, h⟩ := bind_eq_ok.mp h
    cases h
    rw [texts_filtered, texts_leaf, Option.toList_some, List.flatMap_singleton]
    rfl

/-- The columns that an UPDATE sets are shown by the names that its assignments give them. -/
private theorem texts_targets {schema : TableSchema} {sets : List Assignment}
    {targets : List (Nat × Expr)} (h : sets.mapM (checkAssignment schema) = .ok targets) :
    (targets.flatMap fun a => Operator.columnText schema a.1 :: a.2.texts) =
      sets.flatMap Assignment.texts := by
  induction sets generalizing targets with
  | nil =>
    cases h
    rfl
  | cons a sets ih =>
    obtain ⟨target, rest, htarget, hrest, rfl⟩ := mapM_eq_ok_cons h
    obtain ⟨hcolumn, hvalue⟩ := checkAssignment_eq_ok htarget
    obtain ⟨column, hcolumn, hname⟩ := TableSchema.columnIndex?_name hcolumn
    have htext : Operator.columnText schema target.1 = a.field := by
      rw [Operator.columnText, hcolumn, Option.map_some, Option.getD_some, hname]
    rw [List.flatMap_cons, List.flatMap_cons, ih hrest, htext, hvalue, Assignment.texts]

/-- The plan of a statement shows the names and the text literals of the statement. -/
theorem hasTexts_ofStatement {stmt : Statement} (h : ofStatement c options stmt = .ok p) :
    p.HasTexts c (stmt.texts c) := by
  induction stmt generalizing p with
  | select query => exact hasTexts_ofSelect query h
  | delete table filter =>
    obtain ⟨scan, hscan, h⟩ := bind_eq_ok.mp h
    cases h
    intro t
    rw [texts_over, texts_writeScan hscan, PlanNode.texts, Statement.texts]
    simp only [List.mem_append, List.mem_cons, List.not_mem_nil]
    grind
  | update table sets filter =>
    obtain ⟨targets, htargets, h⟩ := bind_eq_ok.mp h
    obtain ⟨scan, hscan, h⟩ := bind_eq_ok.mp h
    cases h
    intro t
    rw [texts_over, texts_writeScan hscan, PlanNode.texts, texts_targets htargets, Statement.texts]
    simp only [List.mem_append, List.mem_cons, List.not_mem_nil]
    grind
  | explain stmt ih =>
    obtain ⟨inner, hinner, h⟩ := bind_eq_ok.mp h
    cases h
    intro t
    rw [texts_over]
    exact ih hinner t
  | compute | insert | createTable | renameTable =>
    cases h
    intro t
    rw [texts_leaf]
    rfl
  | _ => cases h

end Plan

end SnapshotSql
