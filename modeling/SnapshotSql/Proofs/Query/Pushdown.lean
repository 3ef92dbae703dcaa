import SnapshotSql.Proofs.Query.Execution
import SnapshotSql.Proofs.Query.Narrowing
/-! # Conditions pushed to scans -/

namespace SnapshotSql

namespace RowView

variable {schema : TableSchema} {names : List CellName} {columns : List Nat}

theorem cellsOf_stored (hnames : Shows schema names columns) (v : Version) :
    (stored names columns v).CellsOf (if columns = [] then [] else [schema.name]) := by
  intro table field htable
  refine find_silent hnames (fun i hi col _ => ?_) v
  rw [if_neg (List.ne_nil_of_mem hi), List.mem_singleton] at htable
  simp [CellName.answers, CellName.qualified, Ne.symm htable]

theorem cellsOf_qualified (qualifier : String) {v : RowView}
    (h : ∀ i < v.cellCount, ∃ name, v.nameAt i = .ok name) :
    (qualified qualifier v).CellsOf [qualifier] := by
  intro table field htable
  rw [find]
  refine firstAnswer_none fun i hi => ?_
  obtain ⟨name, hname⟩ := h i (List.mem_range.mp hi)
  refine ⟨.qualified qualifier name.field, by rw [hname]; rfl, ?_⟩
  rw [List.mem_singleton] at htable
  simp [CellName.answers, CellName.qualified, Ne.symm htable]

end RowView

namespace Plan

def splitUnless (whole : Bool) (scope : List ScopeEntry) (filter : Option Expr) : FilterSplit :=
  if whole then ⟨scope.map fun _ => [], filter.toList⟩ else splitFilter scope filter

mutual

/-- The plan of a query. The WHERE of the queries in `whole` is left in one piece above their joins, so
that their scans test nothing. -/
def ofSelectWhole (c : Catalog) (options : PlannerOptions) (whole : Select → Bool) :
    Select → Except PlanError Plan
  | ⟨items, sources, filter, groupBy, having, orderBy⟩ => do
    let s : Select := ⟨items, sources, filter, groupBy, having, orderBy⟩
    if items.isEmpty then throw (.unsupported .emptySelectList)
    if sources.isEmpty then ofSourceless c s
    else
      let scope := sources.map (ScopeEntry.ofFromItem c)
      let needs ← s.resolve scope
      checkFilter filter
      let split := splitUnless (whole s) scope filter
      match ← ofSourcesWhole c options whole none (needs.zip split.pushed) sources with
      | some joins => finish c s split.rest joins
      | none => ofSourceless c s

def ofSourcesWhole (c : Catalog) (options : PlannerOptions) (whole : Select → Bool)
    (left : Option Plan) (parts : List (List Nat × List Expr)) :
    List FromItem → Except PlanError (Option Plan)
  | [] => .ok left
  | ⟨.table id, on⟩ :: rest => do
    let (columns, predicates) := parts.head?.getD ([], [])
    let input := leaf c (.tableGet id columns .read predicates)
    let plan ← applyOn c on (attach c options true left input)
    ofSourcesWhole c options whole (some plan) parts.tail rest
  | ⟨.query select qualifier, on⟩ :: rest => do
    let inner ← ofSelectWhole c options whole select
    let input := build c (.subQuery qualifier) [inner]
    let plan ← applyOn c on (attach c options false left input)
    ofSourcesWhole c options whole (some plan) parts.tail rest

end

variable {c : Catalog} {options : PlannerOptions} {whole : Select → Bool}

mutual

theorem ofSelectWhole_none : ∀ s : Select,
    ofSelectWhole c options (fun _ => false) s = ofSelect c options s
  | ⟨items, sources, filter, groupBy, having, orderBy⟩ => by
    rw [ofSelectWhole, ofSelect]
    simp only [ofSourcesWhole_none sources]
    rfl

theorem ofSourcesWhole_none : ∀ (sources : List FromItem) (left : Option Plan)
    (parts : List (List Nat × List Expr)),
    ofSourcesWhole c options (fun _ => false) left parts sources = ofSources c options left parts sources
  | [], left, parts => by rw [ofSourcesWhole, ofSources]
  | ⟨.table id, on⟩ :: rest, left, parts => by
    rw [ofSourcesWhole, ofSources]
    simp only [ofSourcesWhole_none rest]
  | ⟨.query select qualifier, on⟩ :: rest, left, parts => by
    rw [ofSourcesWhole, ofSources, ofSelectWhole_none select]
    simp only [ofSourcesWhole_none rest]

end

variable {policy : ConflictPolicy} {p p' : Plan} {s : Select}

private theorem ofSourcesWhole_some {sources : List FromItem} {left out : Option Plan}
    {parts : List (List Nat × List Expr)} (hleft : left.isSome ∨ sources ≠ [])
    (h : ofSourcesWhole c options whole left parts sources = .ok out) : ∃ p, out = some p := by
  induction sources generalizing left parts with
  | nil =>
    rw [ofSourcesWhole] at h
    cases h
    exact Option.isSome_iff_exists.mp (hleft.resolve_right fun hne => hne rfl)
  | cons source sources ih =>
    obtain ⟨source, on⟩ := source
    cases source with
    | table id =>
      rw [ofSourcesWhole] at h
      obtain ⟨plan, _, h⟩ := bind_eq_ok.mp h
      exact ih (.inl rfl) h
    | query select qualifier =>
      rw [ofSourcesWhole] at h
      obtain ⟨inner, _, h⟩ := bind_eq_ok.mp h
      obtain ⟨plan, _, h⟩ := bind_eq_ok.mp h
      exact ih (.inl rfl) h

private theorem ofSelectWhole_eq_ok (h : ofSelectWhole c options whole s = .ok p) :
    s.sources = [] ∧ p = leaf c (.project s.items) ∨ ∃ needs joins,
      s.resolve (s.sources.map (ScopeEntry.ofFromItem c)) = .ok needs ∧
      checkFilter s.filter = .ok () ∧
      ofSourcesWhole c options whole none (needs.zip (splitUnless (whole s)
        (s.sources.map (ScopeEntry.ofFromItem c)) s.filter).pushed) s.sources = .ok (some joins) ∧
      finish c s (splitUnless (whole s) (s.sources.map (ScopeEntry.ofFromItem c)) s.filter).rest
        joins = .ok p := by
  obtain ⟨items, sources, filter, groupBy, having, orderBy⟩ := s
  rw [ofSelectWhole] at h
  split at h
  · cases h
  · simp only at h ⊢
    split at h
    · rename_i hempty
      refine .inl ⟨by simpa using hempty, ?_⟩
      unfold ofSourceless at h
      split at h
      · cases h
      · split at h
        · cases h
        · cases h
          rfl
    · rename_i hsources
      obtain ⟨needs, hneeds, h⟩ := bind_eq_ok.mp h
      obtain ⟨_, hfilter, h⟩ := bind_eq_ok.mp h
      obtain ⟨joined, hjoined, h⟩ := bind_eq_ok.mp h
      obtain ⟨joins, rfl⟩ := ofSourcesWhole_some (.inr (by simpa using hsources)) hjoined
      exact .inr ⟨needs, joins, hneeds, hfilter, hjoined, h⟩

variable {R : Reader} {t t' : QueryTree}

private theorem projected_completed (h : ofSelectWhole c options whole s = .ok p)
    (ht : p.tree c policy = .ok t) {rs : List (RowView × Bool)} (hrs : t.completed R = some rs) :
    ∀ r ∈ rs, ∃ v, r.1 = .projected s.items v := by
  rcases ofSelectWhole_eq_ok h with ⟨_, rfl⟩ | ⟨needs, joins, _, _, _, hfinish⟩
  · cases ht
    cases hrs
    intro r hr
    rw [List.mem_singleton.mp hr]
    exact ⟨_, rfl⟩
  · obtain ⟨joined, _, rfl⟩ := tree_finish hfinish ht
    rw [QueryTree.finishing, QueryTree.completed_project] at hrs
    obtain ⟨qs, _, rfl⟩ := Option.map_eq_some_iff.mp hrs
    intro r hr
    obtain ⟨r', _, rfl⟩ := List.mem_map.mp hr
    exact ⟨r'.1, rfl⟩

/-- Of the rows of the second plan, the first one yields those that meet the conditions `es`. -/
def Narrows (R : Reader) (c : Catalog) (policy : ConflictPolicy) (es : List Expr)
    (names : List String) (p p' : Plan) : Prop :=
  ∀ t t', p.tree c policy = .ok t → p'.tree c policy = .ok t' → QueryTree.Narrows R es names t t'

variable {es es' : List Expr} {names names' : List String}

private theorem narrows_leaf (hR : ∀ v, R.see .read v ≠ .contested) (id : TableId)
    (columns : List Nat) (predicates : List Expr) (w : Bool) :
    Narrows R c policy (if w then predicates else [])
      (if columns = [] then [] else [(c.table id).schema.name])
      (leaf c (.tableGet id columns .read predicates))
      (leaf c (.tableGet id columns .read (if w then [] else predicates))) := by
  intro t t' ht ht'
  rw [leaf, build, tree] at ht ht'
  obtain ⟨_, _, ht⟩ := bind_eq_ok.mp ht
  obtain ⟨s, hs, ht⟩ := bind_eq_ok.mp ht
  cases ht
  obtain ⟨_, _, ht'⟩ := bind_eq_ok.mp ht'
  obtain ⟨s', hs', ht'⟩ := bind_eq_ok.mp ht'
  cases ht'
  obtain ⟨names, rfl, _, hshows⟩ := create_eq_ok hs
  have hcells : ∀ v, (RowView.stored names columns v).CellsOf
      (if columns = [] then [] else [(c.table id).schema.name]) := RowView.cellsOf_stored hshows
  cases w with
  | true =>
    rw [if_pos rfl] at hs' ⊢
    obtain ⟨names', hnames', hs'⟩ := bind_eq_ok.mp hs'
    obtain ⟨names'', hnames, hs⟩ := bind_eq_ok.mp hs
    cases hs'
    cases hs
    rw [hnames] at hnames'
    cases hnames'
    refine QueryTree.narrows_scan hR (s := ⟨id, columns, names, .read, [], policy, none, 0, none⟩)
      rfl rfl ?_
    exact hcells
  | false =>
    rw [if_neg Bool.false_ne_true] at hs' ⊢
    rw [hs] at hs'
    cases hs'
    refine QueryTree.narrows_same (fun ps qs hps hqs => Option.some.inj (hps ▸ hqs)) ?_
    intro qs hqs r hr
    have hreads : (QueryTree.scan
        ⟨id, columns, names, .read, predicates, policy, none, 0, none⟩).ReadOnly := rfl
    refine ⟨QueryTree.uncontested_completed hR hreads hqs r hr, ?_⟩
    rw [QueryTree.completed_scan] at hqs
    obtain ⟨_, rfl⟩ := keepAll_eq_some.mp hqs
    obtain ⟨seen, _, rfl⟩ := List.mem_map.mp (List.mem_filter.mp hr).1
    exact hcells seen.1

/-- The plans of the sources so far are related, unless there is none. -/
inductive NarrowsAll (R : Reader) (c : Catalog) (policy : ConflictPolicy) :
    List Expr → List String → Option Plan → Option Plan → Prop
  | none : NarrowsAll R c policy [] [] none none
  | some {es : List Expr} {names : List String} {p p' : Plan} (h : Narrows R c policy es names p p') :
      NarrowsAll R c policy es names (some p) (some p')

private theorem narrows_join (h : Narrows R c policy es names p p') {q q' : Plan}
    (h' : Narrows R c policy es' names' q q') (haggregate : ∀ e ∈ es ++ es', e.hasAggregate = false)
    (hfree : ∀ e ∈ es', ∀ ref ∈ e.fields, ref.table ∉ names ∨ ref.table ∉ names') :
    Narrows R c policy (es ++ es') (names ++ names') (build c .join [p, q])
      (build c .join [p', q']) := by
  intro t t' ht ht'
  rw [build, tree] at ht ht'
  obtain ⟨l, hl, ht⟩ := bind_eq_ok.mp ht
  obtain ⟨r, hr, ht⟩ := bind_eq_ok.mp ht
  cases ht
  obtain ⟨l', hl', ht'⟩ := bind_eq_ok.mp ht'
  obtain ⟨r', hr', ht'⟩ := bind_eq_ok.mp ht'
  cases ht'
  exact QueryTree.narrows_join (h l l' hl hl') (h' r r' hr hr') haggregate hfree

private theorem narrows_cached (h : Narrows R c policy es names p p') :
    Narrows R c policy es names (build c .cached [p]) (build c .cached [p']) := by
  intro t t' ht ht'
  rw [build, tree] at ht ht'
  obtain ⟨q, hq, rfl⟩ := map_eq_ok.mp ht
  obtain ⟨q', hq', rfl⟩ := map_eq_ok.mp ht'
  exact QueryTree.narrows_cached (h q q' hq hq')

private theorem narrows_attach {left left' : Option Plan} {isTable : Bool}
    (h : NarrowsAll R c policy es names left left') (h' : Narrows R c policy es' names' p p')
    (haggregate : ∀ e ∈ es ++ es', e.hasAggregate = false)
    (hfree : ∀ e ∈ es', ∀ ref ∈ e.fields, ref.table ∉ names ∨ ref.table ∉ names') :
    Narrows R c policy (es ++ es') (names ++ names') (attach c options isTable left p)
      (attach c options isTable left' p') := by
  cases h with
  | none => exact h'
  | some h =>
    rw [attach, attach]
    split
    · exact narrows_join h (narrows_cached h') haggregate hfree
    · exact narrows_join h h' haggregate hfree

private theorem narrows_applyOn {on : Option Expr} {q : Plan} (h : Narrows R c policy es names p p')
    (hon : applyOn c on p = .ok q) :
    ∃ q', applyOn c on p' = .ok q' ∧ Narrows R c policy es names q q' := by
  cases on with
  | none =>
    cases hon
    exact ⟨p', rfl, h⟩
  | some on =>
    obtain ⟨_, hcheck, hon⟩ := bind_eq_ok.mp hon
    cases hon
    refine ⟨filtered c on p', by rw [applyOn, hcheck]; rfl, ?_⟩
    intro t t' ht ht'
    obtain ⟨q, hq, rfl⟩ := tree_filtered ht
    obtain ⟨q', hq', rfl⟩ := tree_filtered ht'
    exact QueryTree.narrows_filter on policy (h q q' hq hq')

theorem Narrows.weaken (h : Narrows R c policy es names p p') (hnames : names ⊆ names') :
    Narrows R c policy es names' p p' := by
  intro t t' ht ht'
  obtain ⟨hnamed, hkept⟩ := h t t' ht ht'
  refine ⟨fun qs hqs r hr => ?_, hkept⟩
  obtain ⟨hread, hcells⟩ := hnamed qs hqs r hr
  exact ⟨hread, fun table field htable => hcells table field fun hmem => htable (hnames hmem)⟩

def Agrees (R : Reader) (c : Catalog) (policy : ConflictPolicy) (p p' : Plan) : Prop :=
  ∀ t t', p.tree c policy = .ok t → p'.tree c policy = .ok t' →
    ∀ rs rs', t.completed R = some rs → t'.completed R = some rs' → rs = rs'

private theorem agrees_refl (p : Plan) : Agrees R c policy p p := by
  intro t t' ht ht' rs rs' hrs hrs'
  cases ht.symm.trans ht'
  exact Option.some.inj (hrs.symm.trans hrs')

private theorem narrows_subQuery (hR : ∀ v, R.see .read v ≠ .contested) (h : Agrees R c policy p p')
    (hreads : p'.Reads) (hs : ofSelectWhole c options whole s = .ok p') (qualifier : String) :
    Narrows R c policy [] [qualifier] (build c (.subQuery qualifier) [p])
      (build c (.subQuery qualifier) [p']) := by
  intro t t' ht ht'
  rw [build, tree] at ht ht'
  obtain ⟨q, hq, rfl⟩ := map_eq_ok.mp ht
  obtain ⟨q', hq', rfl⟩ := map_eq_ok.mp ht'
  refine QueryTree.narrows_same ?_ ?_
  · intro ps qs hps hqs
    rw [QueryTree.completed_rename] at hps hqs
    obtain ⟨rs, hrs, rfl⟩ := Option.map_eq_some_iff.mp hps
    obtain ⟨rs', hrs', rfl⟩ := Option.map_eq_some_iff.mp hqs
    rw [h q q' hq hq' rs rs' hrs hrs']
  · intro qs hqs r hr
    rw [QueryTree.completed_rename] at hqs
    obtain ⟨rs, hrs, rfl⟩ := Option.map_eq_some_iff.mp hqs
    obtain ⟨r', hr', rfl⟩ := List.mem_map.mp hr
    refine ⟨QueryTree.uncontested_completed hR (readOnly_tree hreads hq').2 hrs r' hr', ?_⟩
    obtain ⟨v, hv⟩ := projected_completed hs hq' hrs r' hr'
    refine RowView.cellsOf_qualified qualifier fun i hi => ?_
    rw [hv] at hi ⊢
    exact ⟨_, by rw [RowView.nameAt, RowView.cellOf, List.getElem?_eq_getElem hi]; rfl⟩

private theorem grouped_congr {input : Plan} (input' : Plan) (h : grouped c s input = .ok p) :
    ∃ p', grouped c s input' = .ok p' := by
  unfold grouped at h ⊢
  simp only at h ⊢
  split at h
  · cases h
  · split at h
    · cases h
    · cases hhaving : s.having with
      | none => exact ⟨_, rfl⟩
      | some having =>
        rw [hhaving] at h
        obtain ⟨_, hcheck, _⟩ := bind_eq_ok.mp h
        exact ⟨_, by simp only [hcheck]; rfl⟩

private theorem finish_congr {rest terms : List Expr} {joins joins' : Plan}
    (h : finish c s rest joins = .ok p) : ∃ p', finish c s terms joins' = .ok p' := by
  rw [finish_residual] at h ⊢
  unfold finish at h ⊢
  simp only [Expr.ofConjuncts?] at h ⊢
  split at h
  · rename_i haggregate
    obtain ⟨g, hg, _⟩ := bind_eq_ok.mp h
    obtain ⟨g', hg'⟩ := grouped_congr (residual c terms joins') hg
    exact ⟨_, by rw [if_pos haggregate, hg']; rfl⟩
  · rename_i haggregate
    exact ⟨_, by rw [if_neg haggregate]; rfl⟩

/-- The conditions that the first plan has tested below, and the terms that it tests above, are the
terms that the second one tests above. -/
private theorem agrees_finish {rest terms : List Expr} {joins joins' : Plan}
    (h : Narrows R c policy es names joins joins')
    (hsplit : ∀ find : Lookup, (∀ e ∈ es ++ rest, e.holds find = .ok true) ↔
      ∀ e ∈ terms, e.holds find = .ok true)
    (hp : finish c s rest joins = .ok p) (hp' : finish c s terms joins' = .ok p') :
    Agrees R c policy p p' := by
  intro t t' ht ht' rs rs' hrs hrs'
  obtain ⟨q, hq, rfl⟩ := tree_finish hp ht
  obtain ⟨q', hq', rfl⟩ := tree_finish hp' ht'
  obtain ⟨ps, hps⟩ := QueryTree.completed_of_finishing hrs
  obtain ⟨qs, hqs⟩ := QueryTree.completed_of_finishing hrs'
  obtain rfl := QueryTree.completed_filtering_narrowed (h q q' hq hq') hsplit hps hqs
  rw [QueryTree.completed_finishing_congr (hps.trans hqs.symm), hrs'] at hrs
  exact (Option.some.inj hrs).symm

/-- The terms pushed to the sources can be tested there: they call no aggregate, none is for a
sub-query, and none names an earlier source, unless the scan shows no cells. -/
def Fits (c : Catalog) (names : List String) (sources : List FromItem)
    (parts : List (List Nat × List Expr)) : Prop :=
  parts.length = sources.length ∧
  ∀ (k : Nat) (columns : List Nat) (predicates : List Expr) (item : FromItem),
    parts[k]? = some (columns, predicates) → sources[k]? = some item → ∀ e ∈ predicates,
      e.hasAggregate = false ∧ (∃ id, item.source = .table id) ∧ ∀ ref ∈ e.fields,
        columns = [] ∨ ref.table ∉ names ++ (sources.take k).map fun item => item.source.name c

private theorem Fits.tail {item : FromItem} {sources : List FromItem}
    {part : List Nat × List Expr} {parts : List (List Nat × List Expr)}
    (h : Fits c names (item :: sources) (part :: parts)) :
    Fits c (names ++ [item.source.name c]) sources parts := by
  refine ⟨Nat.succ.inj h.1, ?_⟩
  intro k columns predicates item' hpart hitem e he
  obtain ⟨haggregate, hid, hnames⟩ := h.2 (k + 1) columns predicates item' hpart hitem e he
  refine ⟨haggregate, hid, fun ref href => (hnames ref href).imp_right fun hnot => ?_⟩
  rwa [List.append_assoc]

/-- What a source tests of its part, if the WHERE is left in one piece or not. -/
def leave (w : Bool) (part : List Nat × List Expr) : List Nat × List Expr :=
  (part.1, if w then [] else part.2)

private theorem fits_splitFilter {needs : Needs}
    (hneeds : s.resolve (s.sources.map (ScopeEntry.ofFromItem c)) = .ok needs)
    (hfilter : checkFilter s.filter = .ok ()) :
    Fits c [] s.sources (needs.zip
      (splitFilter (s.sources.map (ScopeEntry.ofFromItem c)) s.filter).pushed) := by
  have hlength := (Select.offers_resolve (by rw [List.length_map]) hneeds).1
  refine ⟨by rw [List.length_zip, length_splitFilter, hlength, Nat.min_self, List.length_map], ?_⟩
  intro k columns predicates item hpart hitem e he
  obtain ⟨hcolumns, hpushed⟩ := List.getElem?_zip_eq_some.mp hpart
  have hscope : (s.sources.map (ScopeEntry.ofFromItem c))[k]? = some (.ofFromItem c item) := by
    rw [List.getElem?_map, hitem, Option.map_some]
  by_cases hsingle : (s.sources.map (ScopeEntry.ofFromItem c)).length = 1
  · rw [splitFilter_single _ hsingle, List.getElem?_map, hscope] at hpushed
    cases hpushed
    cases he
  · rw [pushed_splitFilter _ hsingle, hscope] at hpushed
    cases hpushed
    obtain ⟨he, htarget⟩ := List.mem_filter.mp he
    obtain ⟨entry, hentry, htable, hnames⟩ := Expr.pushTarget?_eq_some (decide_eq_true_iff.mp htarget)
    rw [hscope] at hentry
    cases hentry
    refine ⟨?_, ?_, fun ref href => ?_⟩
    · obtain ⟨filter, hmem, he⟩ := List.mem_flatMap.mp he
      rw [Option.mem_toList] at hmem
      rw [hmem] at hfilter
      exact Expr.hasAggregate_conjuncts (hasAggregate_of_checkFilter hfilter) he
    · obtain ⟨source, on⟩ := item
      cases source with
      | table id => exact ⟨id, rfl⟩
      | query select qualifier => cases htable
    · by_cases hnil : columns = []
      · exact .inl hnil
      · -- Columns are read from the first source of a name only.
        have hfirst := Select.ofFirst_resolve hneeds k columns _ hcolumns hnil hscope
        obtain ⟨_, _, hbefore⟩ := List.findIdx?_eq_some_iff_getElem.mp hfirst
        refine .inr fun hmem => ?_
        rw [List.nil_append, List.mem_map] at hmem
        obtain ⟨other, hother, hname⟩ := hmem
        obtain ⟨j, hj⟩ := List.mem_iff_getElem?.mp hother
        rw [List.getElem?_take] at hj
        split at hj
        · rename_i hlt
          have hne := hbefore j hlt
          obtain ⟨hjlt, rfl⟩ := List.getElem?_eq_some_iff.mp hj
          refine hne ?_
          rw [List.getElem_map, beq_iff_eq, ← hnames ref href]
          exact hname
        · cases hj

private theorem zip_splitUnless (w : Bool) {needs : Needs} {scope : List ScopeEntry}
    (filter : Option Expr) : needs.zip (splitUnless w scope filter).pushed =
      (needs.zip (splitFilter scope filter).pushed).map (leave w) := by
  cases w with
  | false => exact (List.map_id _).symm
  | true =>
    have hpushed : (scope.map fun _ => ([] : List Expr)) =
        (splitFilter scope filter).pushed.map fun _ => [] := by
      rw [List.map_const', List.map_const', length_splitFilter]
    rw [splitUnless, if_pos rfl, hpushed, List.zip_map_right]
    rfl

private theorem holds_splitUnless (w : Bool) (scope : List ScopeEntry) (filter : Option Expr)
    (find : Lookup) :
    (∀ e ∈ (if w then (splitFilter scope filter).pushed.flatten else []) ++
        (splitFilter scope filter).rest, e.holds find = .ok true) ↔
      ∀ e ∈ (splitUnless w scope filter).rest, e.holds find = .ok true := by
  cases w with
  | false => rfl
  | true =>
    rw [splitUnless, if_pos rfl, if_pos rfl]
    by_cases hsingle : scope.length = 1
    · rw [splitFilter_single filter hsingle]
      have hnone : (scope.map fun _ => ([] : List Expr)).flatten = [] := by
        rw [List.map_const', List.flatten_replicate_nil]
      rw [hnone, List.nil_append]
    · have hall : (∀ e ∈ (splitFilter scope filter).pushed.flatten ++ (splitFilter scope filter).rest,
          e.holds find = .ok true) ↔
          ∀ e ∈ filter.toList.flatMap Expr.conjuncts, e.holds find = .ok true :=
        forall_congr' fun e => imp_congr_left (mem_splitFilter filter hsingle e)
      rw [hall]
      cases filter with
      | none => rfl
      | some filter =>
        rw [Option.toList_some, List.flatMap_singleton, List.forall_mem_singleton]
        exact Expr.holds_conjuncts filter

private theorem ofSelectWhole_sourceless (hsources : s.sources = []) :
    ofSelectWhole c options whole s = ofSelect c options s := by
  obtain ⟨items, sources, filter, groupBy, having, orderBy⟩ := s
  cases hsources
  rw [ofSelectWhole, ofSelect]
  rfl

private theorem ofSelectWhole_eq {needs : Needs} {joins : Plan} (hs : ofSelect c options s = .ok p)
    (hsources : s.sources ≠ [])
    (hneeds : s.resolve (s.sources.map (ScopeEntry.ofFromItem c)) = .ok needs)
    (hfilter : checkFilter s.filter = .ok ())
    (hjoins : ofSourcesWhole c options whole none (needs.zip (splitUnless (whole s)
      (s.sources.map (ScopeEntry.ofFromItem c)) s.filter).pushed) s.sources = .ok (some joins)) :
    ofSelectWhole c options whole s = finish c s (splitUnless (whole s)
      (s.sources.map (ScopeEntry.ofFromItem c)) s.filter).rest joins := by
  obtain ⟨items, sources, filter, groupBy, having, orderBy⟩ := s
  rw [ofSelect] at hs
  rw [ofSelectWhole]
  split at hs
  · cases hs
  · rename_i hitems
    rw [if_neg hitems]
    simp only at hsources hneeds hfilter hjoins ⊢
    rw [if_neg (by simpa using hsources), hneeds, hfilter]
    simp only [bind, Except.bind, hjoins]

private theorem agrees_of_joins (hs : ofSelect c options s = .ok p)
    (hjoins : ∀ (w : Bool) {parts : List (List Nat × List Expr)} {out : Option Plan},
      Fits c [] s.sources parts → ofSources c options none parts s.sources = .ok out →
      ∃ out' names', ofSourcesWhole c options whole none (parts.map (leave w)) s.sources = .ok out' ∧
        (∀ l, out' = some l → l.Reads) ∧
        NarrowsAll R c policy (if w then parts.flatMap (·.2) else []) names' out out') :
    ∃ p', ofSelectWhole c options whole s = .ok p' ∧ p'.Reads ∧ Agrees R c policy p p' := by
  by_cases hsources : s.sources = []
  · exact ⟨p, (ofSelectWhole_sourceless hsources).trans hs, reads_ofSelect s hs, agrees_refl p⟩
  · obtain ⟨needs, joins, hneeds, hfilter, hsome, hfinish⟩ := ofSelect_eq_ok hsources hs
    obtain ⟨out', names', hout', hreads, hall⟩ :=
      hjoins (whole s) (fits_splitFilter hneeds hfilter) hsome
    rw [← zip_splitUnless] at hout'
    have hlength := (Select.offers_resolve (by rw [List.length_map]) hneeds).1
    rw [List.flatMap_def, List.map_snd_zip (by rw [hlength, length_splitFilter])] at hall
    have hsplit := holds_splitUnless (whole s) (s.sources.map (.ofFromItem c)) s.filter
    generalize (if whole s then _ else []) = es at hall hsplit
    cases hall with
    | @some _ _ _ joins' hall =>
      obtain ⟨p', hp'⟩ := finish_congr hfinish
      exact ⟨p', (ofSelectWhole_eq hs hsources hneeds hfilter hout').trans hp',
        reads_finish (hreads _ rfl) hp', agrees_finish hall hsplit hfinish hp'⟩

mutual

/-- A query whose WHERE is left in one piece is planned as well, and the two plans agree. -/
theorem agrees_ofSelect (hR : ∀ v, R.see .read v ≠ .contested) : ∀ (s : Select) {p : Plan},
    ofSelect c options s = .ok p →
    ∃ p', ofSelectWhole c options whole s = .ok p' ∧ p'.Reads ∧ Agrees R c policy p p'
  | ⟨_, sources, _, _, _, _⟩, _, h => agrees_of_joins h fun w _ _ hfits hout =>
    narrows_ofSources hR w sources .none nofun nofun hfits hout

theorem narrows_ofSources (hR : ∀ v, R.see .read v ≠ .contested) (w : Bool) :
    ∀ (sources : List FromItem) {left left' out : Option Plan} {es : List Expr} {names : List String}
      {parts : List (List Nat × List Expr)}, NarrowsAll R c policy es names left left' →
    (∀ l, left' = some l → l.Reads) → (∀ e ∈ es, e.hasAggregate = false) →
    Fits c names sources parts → ofSources c options left parts sources = .ok out →
    ∃ out' names', ofSourcesWhole c options whole left' (parts.map (leave w)) sources = .ok out' ∧
      (∀ l, out' = some l → l.Reads) ∧
      NarrowsAll R c policy (es ++ if w then parts.flatMap (·.2) else []) names' out out'
  | [], left, left', out, es, names, parts, hleft, hreads, haggregate, hfits, h => by
    rw [ofSources] at h
    cases h
    obtain rfl := List.eq_nil_of_length_eq_zero hfits.1
    refine ⟨left', names, rfl, hreads, ?_⟩
    rw [List.flatMap_nil, ite_self, List.append_nil]
    exact hleft
  | ⟨.table id, on⟩ :: rest, left, left', out, es, names, [], hleft, hreads, haggregate, hfits, h =>
    nomatch hfits.1
  | ⟨.table id, on⟩ :: rest, left, left', out, es, names, (columns, predicates) :: parts, hleft,
      hreads, haggregate, hfits, h => by
    rw [ofSources] at h
    obtain ⟨plan, hplan, h⟩ := bind_eq_ok.mp h
    have hhead := hfits.2 0 columns predicates _ rfl rfl
    have hleaf : Narrows R c policy (if w then predicates else []) _ _ _ :=
      narrows_leaf hR id columns predicates w
    have haggregate' : ∀ e ∈ es ++ if w then predicates else [], e.hasAggregate = false := by
      rw [List.forall_mem_append]
      refine ⟨haggregate, fun e he => ?_⟩
      split at he
      · exact (hhead e he).1
      · cases he
    have hfree : ∀ e ∈ if w then predicates else [], ∀ ref ∈ e.fields, ref.table ∉ names ∨
        ref.table ∉ if columns = [] then [] else [(c.table id).schema.name] := by
      intro e he ref href
      split at he
      · rcases (hhead e he).2.2 ref href with hnil | hnot
        · rw [if_pos hnil]
          exact .inr List.not_mem_nil
        · rw [List.take_zero, List.map_nil, List.append_nil] at hnot
          exact .inl hnot
      · cases he
    obtain ⟨plan', hplan', hnext⟩ :=
      narrows_applyOn (narrows_attach hleft hleaf haggregate' hfree) hplan
    have hnames : names ++ (if columns = [] then [] else [(c.table id).schema.name]) ⊆
        names ++ [(c.table id).schema.name] := by
      refine List.append_subset.mpr ⟨List.subset_append_left _ _, ?_⟩
      split
      · exact List.nil_subset _
      · exact List.subset_append_right _ _
    have hreads' : plan'.Reads := reads_applyOn (reads_attachTable hreads id columns _) hplan'
    obtain ⟨out', names', hout', hrest⟩ := narrows_ofSources hR w rest (.some (hnext.weaken hnames))
      (fun l hl => Option.some.inj hl ▸ hreads') haggregate' hfits.tail h
    refine ⟨out', names', ?_, ?_⟩
    · rw [ofSourcesWhole, List.map_cons]
      simp only [List.head?_cons, Option.getD_some, leave, hplan', List.tail_cons]
      exact hout'
    · rw [List.append_assoc] at hrest
      cases w <;> exact hrest
  | ⟨.query select qualifier, on⟩ :: rest, left, left', out, es, names, [], hleft, hreads, haggregate,
      hfits, h => nomatch hfits.1
  | ⟨.query select qualifier, on⟩ :: rest, left, left', out, es, names, (columns, predicates) :: parts,
      hleft, hreads, haggregate, hfits, h => by
    rw [ofSources] at h
    obtain ⟨inner, hinner, h⟩ := bind_eq_ok.mp h
    obtain ⟨plan, hplan, h⟩ := bind_eq_ok.mp h
    -- Nothing is pushed to a sub-query.
    obtain rfl : predicates = [] := by
      refine List.eq_nil_iff_forall_not_mem.mpr fun e he => ?_
      obtain ⟨id, hid⟩ := (hfits.2 0 columns predicates _ rfl rfl e he).2.1
      cases hid
    obtain ⟨inner', hinner', hreadsInner, hagrees⟩ := agrees_ofSelect hR select hinner
    have hsub : Narrows R c policy [] [qualifier] _ _ :=
      narrows_subQuery hR hagrees hreadsInner hinner' qualifier
    obtain ⟨plan', hplan', hnext⟩ := narrows_applyOn
      (narrows_attach hleft hsub (by rwa [List.append_nil]) nofun) hplan
    have hreads' : plan'.Reads :=
      reads_applyOn (reads_attachQuery hreads (.rename qualifier _ hreadsInner)) hplan'
    rw [List.append_nil] at hnext
    obtain ⟨out', names', hout', hrest⟩ := narrows_ofSources hR w rest (.some hnext)
      (fun l hl => Option.some.inj hl ▸ hreads') haggregate hfits.tail h
    refine ⟨out', names', ?_, hrest⟩
    rw [ofSourcesWhole, hinner']
    simp only [bind, Except.bind, hplan', List.map_cons, List.tail_cons]
    exact hout'

end

end Plan

namespace Stream

theorem rows_of_complete {s : Stream} {rs : List (RowView × Bool)} (h : s.complete = some rs) :
    s.rows = rs.map fun r => (.of r.2, r.1.copy) := by
  induction s generalizing rs with
  | done =>
    cases h
    rfl
  | fail e => cases h
  | row v c rest ih =>
    obtain ⟨rs', hrs', rfl⟩ := Option.map_eq_some_iff.mp h
    rw [rows, ih hrs', List.map_cons]
  | touch rest ih => exact ih h

theorem complete_of_last {s : Stream} (h : s.last = .ok ()) : ∃ rs, s.complete = some rs := by
  induction s with
  | done => exact ⟨[], rfl⟩
  | fail e => cases h
  | row v c rest ih =>
    obtain ⟨rs, hrs⟩ := ih h
    exact ⟨(v, c) :: rs, by rw [complete, hrs]; rfl⟩
  | touch rest ih => exact ih h

end Stream

namespace Plan

variable {c : Catalog} {options : PlannerOptions} {policy : ConflictPolicy} {s : Select} {p : Plan}
  {op : Operator} {t : TxHandle} {db : Database} {rows : List (Step × Except ExecError Row)}

private theorem completed_of_executes (hreads : p.Reads) (hop : p.lower c policy = .ok op)
    (hactive : db.Active t) (h : op.Executes t db rows (.ok ())) :
    ∃ q rs, p.tree c policy = .ok q ∧ q.completed (db.reader t) = some rs ∧
      rows = rs.map fun r => (.of r.2, r.1.copy) := by
  rw [lower_eq_tree c policy hreads] at hop
  obtain ⟨q, hq, rfl⟩ := map_eq_ok.mp hop
  have hstream := QueryTree.executes_stream (readOnly_tree hreads hq).1 hactive
  cases hs : q.stream (db.reader t) with
  | error e =>
    rw [hs] at hstream
    cases (Operator.executes_unique h hstream).2
  | ok s =>
    rw [hs] at hstream
    obtain ⟨rfl, hlast⟩ := Operator.executes_unique h hstream
    obtain ⟨rs, hrs⟩ := Stream.complete_of_last hlast.symm
    exact ⟨q, rs, hq, by rw [QueryTree.completed, hs]; exact hrs, Stream.rows_of_complete hrs⟩

/-- A query may be planned with its WHERE, and those of any of its sub-queries, left in one piece above
their joins instead of pushed to the scans. If both plans come to their ends, they yield the same rows
in the same order. -/
theorem executes_whole (hplan : ofSelect c options s = .ok p) (hop : p.lower c policy = .ok op)
    (hactive : db.Active t) (hrows : op.Executes t db rows (.ok ())) (whole : Select → Bool) :
    ∃ p', ofSelectWhole c options whole s = .ok p' ∧ ∀ op' rows', p'.lower c policy = .ok op' →
      op'.Executes t db rows' (.ok ()) → rows' = rows := by
  obtain ⟨p', hp', hreads, hagrees⟩ : ∃ p', ofSelectWhole c options whole s = .ok p' ∧ p'.Reads ∧
      Agrees (db.reader t) c policy p p' :=
    agrees_ofSelect (Database.reader_uncontested t db) s hplan
  refine ⟨p', hp', fun op' rows' hop' hrows' => ?_⟩
  obtain ⟨q, rs, hq, hrs, rfl⟩ := completed_of_executes (reads_ofSelect s hplan) hop hactive hrows
  obtain ⟨q', rs', hq', hrs', rfl⟩ := completed_of_executes hreads hop' hactive hrows'
  rw [hagrees q q' hq hq' rs rs' hrs hrs']

def twoTables : History :=
  [.createTable "t" [⟨"a", .integer, true⟩], .createTable "u" [⟨"a", .integer, true⟩],
    .begin .readCommitted, .insertRow ⟨0⟩ ⟨0⟩ [.integer 1], .insertRow ⟨0⟩ ⟨0⟩ [.integer 2],
    .insertRow ⟨0⟩ ⟨1⟩ [.integer 2], .insertRow ⟨0⟩ ⟨1⟩ [.integer 3], .commit ⟨0⟩,
    .begin .readCommitted]

/-- `SELECT t.a FROM t, u WHERE t.a = 2 AND u.a < 3 AND t.a = u.a`. The first two terms are pushed. -/
def pushedTerms : Select where
  items := [⟨.field ⟨"t", "a", .integer⟩, none⟩]
  sources := [⟨.table ⟨0⟩, none⟩, ⟨.table ⟨1⟩, none⟩]
  filter := some (.junction .all [
    .comparison .eq (.field ⟨"t", "a", .integer⟩) (.literal (.integer 2)),
    .comparison .lt (.field ⟨"u", "a", .integer⟩) (.literal (.integer 3)),
    .comparison .eq (.field ⟨"t", "a", .integer⟩) (.field ⟨"u", "a", .integer⟩)])
  groupBy := []
  having := none
  orderBy := []

/-- The query of `pushedTerms`. -/
def pushedQuery : QueryTree :=
  .project pushedTerms.items (.filter
    (.comparison .eq (.field ⟨"t", "a", .integer⟩) (.field ⟨"u", "a", .integer⟩)) .absorbUnmatched
    (.join
      (.scan ⟨⟨0⟩, [0], [.qualified "t" "a"], .read,
        [.comparison .eq (.field ⟨"t", "a", .integer⟩) (.literal (.integer 2))], .absorbUnmatched,
        none, 0, none⟩)
      (.cached (.scan ⟨⟨1⟩, [0], [.qualified "u" "a"], .read,
        [.comparison .lt (.field ⟨"u", "a", .integer⟩) (.literal (.integer 3))], .absorbUnmatched,
        none, 0, none⟩))))

theorem executes_whole_pushedTerms :
    ∃ p, ofSelect twoTables.final.catalog {} pushedTerms = .ok p ∧
      p.lower twoTables.final.catalog .absorbUnmatched = .ok pushedQuery.operator ∧
      twoTables.final.Active ⟨1⟩ ∧
      pushedQuery.operator.Executes ⟨1⟩ twoTables.final
        [(.row, .ok { names := [.qualified "t" "a"], values := [.integer 2] })] (.ok ()) ∧
      ∃ p', ofSelectWhole twoTables.final.catalog {} (fun _ => true) pushedTerms = .ok p' ∧
        ∀ op' rows', p'.lower twoTables.final.catalog .absorbUnmatched = .ok op' →
          op'.Executes ⟨1⟩ twoTables.final rows' (.ok ()) →
          rows' = [(.row, .ok { names := [.qualified "t" "a"], values := [.integer 2] })] := by
  have hactive : twoTables.final.Active ⟨1⟩ := ⟨by decide, rfl⟩
  obtain ⟨p, hplan, hop⟩ : ∃ p, ofSelect twoTables.final.catalog {} pushedTerms = .ok p ∧
      p.lower twoTables.final.catalog .absorbUnmatched = .ok pushedQuery.operator := ⟨_, rfl, rfl⟩
  have hmeans : pushedQuery.rows (twoTables.final.visibleTo ⟨1⟩) =
      .ok [{ names := [.qualified "t" "a"], values := [.integer 2] }] := rfl
  have hrows := QueryTree.executes_rows (q := pushedQuery) ⟨rfl, rfl⟩ ⟨rfl, rfl⟩ hactive hmeans
  exact ⟨p, hplan, hop, hactive, hrows, executes_whole hplan hop hactive hrows fun _ => true⟩

end Plan

end SnapshotSql
