import SnapshotSql.Proofs.Query.Outline
import SnapshotSql.Proofs.Query.Resolved
/-! # Pushed conjuncts and the sources they read -/

namespace SnapshotSql

/-! ## The sources of a plan -/

def PlanNode.isSource : PlanNode → Bool
  | tableGet .. => true
  | subQuery _ => true
  | _ => false

theorem PlanNode.isSource_of_scan {node : PlanNode} (h : node.kind = .tableGet) :
    node.isSource = true := by
  cases node <;> first | rfl | cases h

namespace Plan

mutual

/-- The plans of the sources that a plan joins, from left to right. -/
def sources : Plan → List Plan
  | ⟨node, children, tables⟩ =>
    if node.isSource then [⟨node, children, tables⟩] else sourcesAll children

def sourcesAll : List Plan → List Plan
  | [] => []
  | p :: ps => p.sources ++ sourcesAll ps

end

variable {c : Catalog} {options : PlannerOptions} {p q : Plan} {s : Select} {node : PlanNode}

theorem sources_build (h : node.isSource = true) (children : List Plan) :
    (build c node children).sources = [build c node children] := by
  rw [build, sources, if_pos h]

theorem sources_over (h : node.isSource = false) : (build c node [p]).sources = p.sources := by
  rw [build, sources, h, if_neg Bool.false_ne_true, sourcesAll, sourcesAll, List.append_nil]

theorem sources_join (l r : Plan) : (build c .join [l, r]).sources = l.sources ++ r.sources := by
  rw [build, sources, show PlanNode.join.isSource = false from rfl, if_neg Bool.false_ne_true,
    sourcesAll, sourcesAll, sourcesAll, List.append_nil]

theorem sources_attach (left : Option Plan) (isTable : Bool) :
    (attach c options isTable left p).sources = (left.elim [] sources) ++ p.sources := by
  cases left with
  | none => rfl
  | some l =>
    have hright : (if options.cacheInner && isTable then build c .cached [p] else p).sources =
        p.sources := by
      split
      · exact sources_over rfl
      · rfl
    rw [attach, sources_join, hright, Option.elim_some]

theorem sources_applyOn {on : Option Expr} (h : applyOn c on p = .ok q) :
    q.sources = p.sources := by
  cases on with
  | none =>
    cases h
    rfl
  | some on =>
    obtain ⟨_, _, h⟩ := bind_eq_ok.mp h
    cases h
    exact sources_over rfl

theorem sources_finish {rest : List Expr} (h : finish c s rest p = .ok q) :
    q.sources = p.sources :=
  finish_induction (P := fun q => q.sources = p.sources) h rfl
    (fun _ _ hp => (sources_over rfl).trans hp) (fun _ hp => (sources_over rfl).trans hp)
    (fun hp => (sources_over rfl).trans hp) fun hp => (sources_over rfl).trans hp

/-- The plan of a source, given the columns that it is to read and the terms that it is to test. -/
def PlansSource (c : Catalog) (options : PlannerOptions) (part : List Nat × List Expr) :
    FromItem → Plan → Prop
  | ⟨.table id, _⟩, q => q = leaf c (.tableGet id part.1 .read part.2)
  | ⟨.query select qualifier, _⟩, q =>
    ∃ inner, ofSelect c options select = .ok inner ∧ q = build c (.subQuery qualifier) [inner]

/-- A plan of each source, in their order, for what each is to read and to test. -/
structure PlansSources (c : Catalog) (options : PlannerOptions) (parts : List (List Nat × List Expr))
    (items : List FromItem) (qs : List Plan) : Prop where
  length : qs.length = items.length
  source : ∀ (k : Nat) item q, items[k]? = some item → qs[k]? = some q →
    PlansSource c options (parts[k]?.getD ([], [])) item q

theorem PlansSources.cons {parts : List (List Nat × List Expr)} {item : FromItem}
    {items : List FromItem} {qs : List Plan}
    (hq : PlansSource c options (parts.head?.getD ([], [])) item q)
    (hqs : PlansSources c options parts.tail items qs) :
    PlansSources c options parts (item :: items) (q :: qs) where
  length := by rw [List.length_cons, List.length_cons, hqs.length]
  source k item' q' hitem hq' := by
    cases k with
    | zero =>
      cases hitem
      cases hq'
      rwa [← List.head?_eq_getElem?]
    | succ k =>
      rw [List.getElem?_cons_succ] at hitem hq'
      rw [← List.getElem?_tail]
      exact hqs.source k item' q' hitem hq'

/-- The joins of some sources, to the right of those before them, join a plan of each. -/
theorem sources_ofSources {items : List FromItem} {left : Option Plan}
    {parts : List (List Nat × List Expr)} (h : ofSources c options left parts items = .ok (some p)) :
    ∃ qs, p.sources = left.elim [] sources ++ qs ∧ PlansSources c options parts items qs := by
  induction items generalizing left parts with
  | nil =>
    rw [ofSources] at h
    cases h
    exact ⟨[], by simp, rfl, nofun⟩
  | cons item items ih =>
    -- One more source is attached to those before it, and the rest follow.
    have hcons : ∀ {isTable : Bool} {q plan : Plan},
        PlansSource c options (parts.head?.getD ([], [])) item q → q.sources = [q] →
        applyOn c item.on (attach c options isTable left q) = .ok plan →
        ofSources c options (some plan) parts.tail items = .ok (some p) →
        ∃ qs, p.sources = left.elim [] sources ++ qs ∧
          PlansSources c options parts (item :: items) qs := by
      intro isTable q plan hq hsources hplan hrest
      obtain ⟨qs, hqs, hall⟩ := ih hrest
      refine ⟨q :: qs, ?_, hall.cons hq⟩
      rw [hqs, Option.elim_some, sources_applyOn hplan, sources_attach, hsources, List.append_assoc,
        List.singleton_append]
    obtain ⟨source, on⟩ := item
    cases source with
    | table id =>
      rw [ofSources] at h
      obtain ⟨plan, hplan, h⟩ := bind_eq_ok.mp h
      exact hcons rfl (sources_build rfl []) hplan h
    | query select qualifier =>
      rw [ofSources] at h
      obtain ⟨inner, hinner, h⟩ := bind_eq_ok.mp h
      obtain ⟨plan, hplan, h⟩ := bind_eq_ok.mp h
      exact hcons ⟨inner, hinner, rfl⟩ (sources_build rfl [inner]) hplan h

private theorem sources_sourceless (hsources : s.sources = []) (h : ofSelect c options s = .ok p) :
    p.sources = [] := by
  obtain ⟨items, sources, filter, groupBy, having, orderBy⟩ := s
  cases hsources
  rw [ofSelect] at h
  split at h
  · cases h
  · simp only [List.isEmpty_nil, if_true] at h
    rw [eq_of_ofSourceless h]
    rfl

theorem sources_ofSelect (h : ofSelect c options s = .ok p) :
    p.sources.length = s.sources.length ∧ ∀ (k : Nat) item q, s.sources[k]? = some item →
      p.sources[k]? = some q → ∃ needs,
        s.resolve (s.sources.map (ScopeEntry.ofFromItem c)) = .ok needs ∧
          PlansSource c options ((needs.zip (splitFilter (s.sources.map (ScopeEntry.ofFromItem c))
            s.filter).pushed)[k]?.getD ([], [])) item q := by
  by_cases hsources : s.sources = []
  · rw [sources_sourceless hsources h, hsources]
    exact ⟨rfl, nofun⟩
  · obtain ⟨needs, joins, hneeds, _, hjoins, hfinish⟩ := ofSelect_eq_ok hsources h
    obtain ⟨qs, hqs, hplans⟩ := sources_ofSources hjoins
    rw [sources_finish hfinish, hqs, Option.elim_none, List.nil_append]
    exact ⟨hplans.length, fun k item q hitem hq => ⟨needs, hneeds, hplans.source k item q hitem hq⟩⟩

mutual

theorem mem_sources {source : Plan} (hsource : source.node.isSource = true) :
    ∀ {p : Plan}, source ∈ p.subtrees → ∃ q ∈ p.sources, source ∈ q.subtrees
  | ⟨node, children, tables⟩, h => by
    rw [sources]
    split
    · exact ⟨_, List.mem_singleton_self _, h⟩
    · rename_i hnode
      rw [subtrees] at h
      rcases List.mem_cons.mp h with rfl | h
      · exact absurd hsource hnode
      · exact mem_sourcesAll hsource h

theorem mem_sourcesAll {source : Plan} (hsource : source.node.isSource = true) :
    ∀ {ps : List Plan}, source ∈ subtreesAll ps → ∃ q ∈ sourcesAll ps, source ∈ q.subtrees
  | [], h => by
    rw [subtreesAll] at h
    cases h
  | p :: ps, h => by
    rw [subtreesAll] at h
    rw [sourcesAll]
    rcases List.mem_append.mp h with h | h
    · obtain ⟨q, hq, h⟩ := mem_sources hsource h
      exact ⟨q, List.mem_append_left _ hq, h⟩
    · obtain ⟨q, hq, h⟩ := mem_sourcesAll hsource h
      exact ⟨q, List.mem_append_right _ hq, h⟩

end

/-! ## Scans -/

mutual

/-- A scan in the plan of a query is a source of the query or of one of its sub-queries. -/
theorem scan_ofSelect {scan : Plan} (hscan : scan.kind = .tableGet) : ∀ (s : Select) {p : Plan},
    ofSelect c options s = .ok p → scan ∈ p.subtrees →
      ∃ s' ∈ s.queries, ∃ p', ofSelect c options s' = .ok p' ∧ scan ∈ p'.sources
  | ⟨items, sources, filter, groupBy, having, orderBy⟩, p, h, hp => by
    obtain ⟨q, hq, hscanq⟩ := mem_sources (PlanNode.isSource_of_scan hscan) hp
    obtain ⟨k, hk⟩ := List.mem_iff_getElem?.mp hq
    obtain ⟨hlength, hplans⟩ := sources_ofSelect h
    obtain ⟨hlt, _⟩ := List.getElem?_eq_some_iff.mp hk
    rw [hlength] at hlt
    obtain ⟨_, _, hplan⟩ := hplans k sources[k] q (List.getElem?_eq_getElem hlt) hk
    rw [Select.queries]
    rcases scan_ofSource hscan sources (List.getElem_mem hlt) hplan hscanq with rfl | ⟨s', hs', h'⟩
    · exact ⟨_, List.mem_cons_self, p, h, hq⟩
    · exact ⟨s', List.mem_cons_of_mem _ hs', h'⟩

theorem scan_ofSource {scan : Plan} (hscan : scan.kind = .tableGet) : ∀ (items : List FromItem)
    {item : FromItem} {part : List Nat × List Expr} {q : Plan}, item ∈ items →
    PlansSource c options part item q → scan ∈ q.subtrees →
      scan = q ∨ ∃ s' ∈ Select.queriesIn items, ∃ p',
        ofSelect c options s' = .ok p' ∧ scan ∈ p'.sources
  | ⟨.table id, on⟩ :: rest, item, part, q, hitem, hplan, hq => by
    rw [Select.queriesIn]
    rcases List.mem_cons.mp hitem with rfl | hitem
    · cases hplan
      exact .inl (List.mem_singleton.mp hq)
    · exact scan_ofSource hscan rest hitem hplan hq
  | ⟨.query select qualifier, on⟩ :: rest, item, part, q, hitem, hplan, hq => by
    rw [Select.queriesIn]
    rcases List.mem_cons.mp hitem with rfl | hitem
    · obtain ⟨inner, hinner, rfl⟩ := hplan
      rw [build, subtrees] at hq
      rcases List.mem_cons.mp hq with rfl | hq
      · cases hscan
      · rw [subtreesAll, subtreesAll, List.append_nil] at hq
        obtain ⟨s', hs', h'⟩ := scan_ofSelect hscan select hinner hq
        exact .inr ⟨s', List.mem_append_left _ hs', h'⟩
    · obtain h | ⟨s', hs', h'⟩ := scan_ofSource hscan rest hitem hplan hq
      · exact .inl h
      · exact .inr ⟨s', List.mem_append_right _ hs', h'⟩

end

end Plan

/-! ## Bound references -/

/-- A conjunct that is pushed reads fields of one name only, and goes to the first table of that name. -/
theorem Expr.firstTable_of_pushTarget? {e : Expr} {scope : List ScopeEntry} {k : Nat}
    (h : e.pushTarget? scope = some k) : e.fields ≠ [] ∧ ∃ name,
      (∀ ref ∈ e.fields, ref.table = name) ∧
        scope.findIdx? (fun entry => entry.name == name && entry.isTable) = some k := by
  unfold pushTarget? at h
  split at h
  · rename_i name htables
    have hmem : ∀ table, table ∈ e.tables ↔ table ∈ e.fields.map (·.table) :=
      fun _ => Sorted.mem_ofList
    rw [htables] at hmem
    refine ⟨fun hfields => ?_, name, fun ref href => ?_, h⟩
    · rw [hfields] at hmem
      exact absurd ((hmem name).mp (List.mem_singleton_self name)) List.not_mem_nil
    · exact List.mem_singleton.mp ((hmem ref.table).mpr (List.mem_map_of_mem href))
  · cases h

namespace Select

variable {c : Catalog} {options : PlannerOptions} {s : Select} {k : Nat}

/-- The reference is resolved to the `k`-th source, a table, and the column of the field is among those
that are read from it. -/
structure Binds (c : Catalog) (s : Select) (k : Nat) (columns : List Nat) (ref : FieldRef) :
    Prop where
  source : (s.sources.map (ScopeEntry.ofFromItem c)).findIdx? (·.name == ref.table) = some k
  column : ∃ id on i, s.sources[k]? = some ⟨.table id, on⟩ ∧
    (c.table id).schema.columnIndex? ref.field = some i ∧ i ∈ columns

/-- No sub-query before the `k`-th source has its name. -/
def Unshadowed (c : Catalog) (s : Select) (k : Nat) : Prop :=
  ∀ item select qualifier on, s.sources[k]? = some item →
    ⟨.query select qualifier, on⟩ ∈ s.sources.take k → qualifier ≠ item.source.name c

/-- The first table of a name is the first source of that name unless a sub-query shadows it. -/
theorem findIdx?_iff_unshadowed {name : String}
    (h : (s.sources.map (ScopeEntry.ofFromItem c)).findIdx?
      (fun entry => entry.name == name && entry.isTable) = some k) :
    (s.sources.map (ScopeEntry.ofFromItem c)).findIdx? (·.name == name) = some k ↔
      s.Unshadowed c k := by
  obtain ⟨hk, hentry, hbefore⟩ := List.findIdx?_eq_some_iff_getElem.mp h
  rw [List.getElem_map, Bool.and_eq_true, beq_iff_eq] at hentry
  have hlt : k < s.sources.length := by rwa [List.length_map] at hk
  have hitem : s.sources[k]? = some s.sources[k] := List.getElem?_eq_getElem hlt
  rw [List.findIdx?_eq_some_iff_getElem]
  constructor
  · rintro ⟨_, _, hfirst⟩ item select qualifier on hitem' hmem rfl
    obtain ⟨j, hj, hjk⟩ := List.mem_take_iff_getElem.mp hmem
    rw [hitem] at hitem'
    cases hitem'
    refine hfirst j (by omega) ?_
    rw [List.getElem_map, hjk, beq_iff_eq]
    exact hentry.1
  · intro hunshadowed
    refine ⟨hk, by rw [List.getElem_map]; exact beq_iff_eq.mpr hentry.1, fun j hj hname => ?_⟩
    have hjlt : j < s.sources.length := by omega
    have hjtable := hbefore j hj
    rw [List.getElem_map] at hname hjtable
    rw [hname, Bool.true_and] at hjtable
    have hmem : s.sources[j] ∈ s.sources.take k := List.mem_take_iff_getElem.mpr ⟨j, by omega, rfl⟩
    generalize s.sources[j] = other at hname hjtable hmem
    obtain ⟨source, on⟩ := other
    cases source with
    | table id => exact hjtable rfl
    | query select qualifier =>
      refine hunshadowed _ select qualifier on hitem hmem ?_
      exact (eq_of_beq hname).trans hentry.1.symm

theorem binds_of_offers {needs : Needs} {columns : List Nat} {id : TableId} {on : Option Expr}
    {ref : FieldRef} (hitem : s.sources[k]? = some ⟨.table id, on⟩) (hcolumns : needs[k]? = some columns)
    (h : needs.Offers (s.sources.map (ScopeEntry.ofFromItem c)) k ref) : s.Binds c k columns ref := by
  obtain ⟨hfirst, entry, hentry, hoffer⟩ := h
  rw [List.getElem?_map, hitem] at hentry
  cases hentry
  obtain ⟨i, columns', hi, hcolumns', hmem⟩ := hoffer
  rw [hcolumns] at hcolumns'
  cases hcolumns'
  exact ⟨hfirst, id, on, i, hitem, hi, hmem⟩

/-- A conjunct that is pushed to a table is read there unless a sub-query shadows the table. -/
theorem binds_iff_unshadowed {needs : Needs} {columns : List Nat} {id : TableId} {on : Option Expr}
    {e : Expr} {ref : FieldRef} (h : s.resolve (s.sources.map (ScopeEntry.ofFromItem c)) = .ok needs)
    (hitem : s.sources[k]? = some ⟨.table id, on⟩) (hcolumns : needs[k]? = some columns)
    (he : e ∈ s.filter.toList.flatMap Expr.conjuncts)
    (htarget : e.pushTarget? (s.sources.map (ScopeEntry.ofFromItem c)) = some k)
    (href : ref ∈ e.fields) : s.Binds c k columns ref ↔ s.Unshadowed c k := by
  obtain ⟨_, name, hname, hfirst⟩ := Expr.firstTable_of_pushTarget? htarget
  rw [← findIdx?_iff_unshadowed hfirst, ← hname ref href]
  constructor
  · exact fun hbinds => hbinds.source
  · intro hsource
    obtain ⟨filter, hfilter, he⟩ := List.mem_flatMap.mp he
    have hclause : filter ∈ s.clauses := by
      simp only [clauses, List.mem_append]
      tauto
    obtain ⟨_, hclauses, _⟩ := Select.offers_resolve (List.length_map _).symm h
    obtain ⟨i, ho⟩ := hclauses filter hclause ref (Expr.fields_conjuncts he href)
    obtain rfl : i = k := Option.some.inj (ho.1.symm.trans hsource)
    exact binds_of_offers hitem hcolumns ho

end Select

namespace Plan

variable {c : Catalog} {options : PlannerOptions} {p q : Plan} {s : Select}

/-- A scan that a source is planned as tests the conjuncts that are pushed to the source. -/
theorem pushed_of_plansSource {needs : Needs} {k : Nat} {item : FromItem} {id : TableId}
    {columns : List Nat} {access : Access} {predicates : List Expr}
    (h : PlansSource c options ((needs.zip (splitFilter (s.sources.map (ScopeEntry.ofFromItem c))
      s.filter).pushed)[k]?.getD ([], [])) item q)
    (hnode : q.node = .tableGet id columns access predicates) :
    (∃ on, item = ⟨.table id, on⟩) ∧ ∀ e ∈ predicates, needs[k]? = some columns ∧
      e ∈ s.filter.toList.flatMap Expr.conjuncts ∧
        e.pushTarget? (s.sources.map (ScopeEntry.ofFromItem c)) = some k := by
  obtain ⟨source, on⟩ := item
  cases source with
  | query select qualifier =>
    obtain ⟨inner, _, rfl⟩ := h
    cases hnode
  | table id' =>
    cases h
    cases hnode
    refine ⟨⟨on, rfl⟩, fun e he => ?_⟩
    cases hpart : (needs.zip (splitFilter (s.sources.map (ScopeEntry.ofFromItem c))
        s.filter).pushed)[k]? with
    | none =>
      rw [hpart] at he
      cases he
    | some part =>
      rw [hpart, Option.getD_some] at he
      obtain ⟨hneeds, hpushed⟩ := List.getElem?_zip_eq_some.mp hpart
      refine ⟨hneeds, ?_⟩
      by_cases hsingle : (s.sources.map (ScopeEntry.ofFromItem c)).length = 1
      · -- With a single source WHERE is left in one piece.
        rw [splitFilter_single s.filter hsingle, List.getElem?_map] at hpushed
        obtain ⟨_, _, hnil⟩ := Option.map_eq_some_iff.mp hpushed
        rw [← hnil] at he
        cases he
      · rw [pushed_splitFilter s.filter hsingle] at hpushed
        obtain ⟨_, _, hterms⟩ := Option.map_eq_some_iff.mp hpushed
        rw [← hterms, List.mem_filter, decide_eq_true_iff] at he
        exact he

/-- Every scan in the plan of a query is a source of a query, its own or a sub-query, and the sources in
a plan are those of FROM, one by one. A term that such a scan tests is a conjunct of WHERE that reads some
field. Its references are resolved to the table that is scanned, by columns that the scan reads, exactly if
no sub-query of the name of the table comes before it. -/
theorem pushed_bound (h : ofSelect c options s = .ok p) :
    (∀ q ∈ p.subtrees, q.kind = .tableGet →
      ∃ s' ∈ s.queries, ∃ p', ofSelect c options s' = .ok p' ∧ q ∈ p'.sources) ∧
    p.sources.length = s.sources.length ∧
    ∀ (k : Nat) q id columns access predicates, p.sources[k]? = some q →
      q.node = .tableGet id columns access predicates →
      (∃ on, s.sources[k]? = some ⟨.table id, on⟩) ∧ ∀ e ∈ predicates,
        e ∈ s.filter.toList.flatMap Expr.conjuncts ∧ e.fields ≠ [] ∧
          ∀ ref ∈ e.fields, s.Binds c k columns ref ↔ s.Unshadowed c k := by
  obtain ⟨hlength, hplans⟩ := sources_ofSelect h
  refine ⟨fun q hq hscan => scan_ofSelect hscan s h hq, hlength, ?_⟩
  intro k q id columns access predicates hk hnode
  obtain ⟨hlt, _⟩ := List.getElem?_eq_some_iff.mp hk
  rw [hlength] at hlt
  obtain ⟨needs, hneeds, hplan⟩ := hplans k s.sources[k] q (List.getElem?_eq_getElem hlt) hk
  obtain ⟨⟨on, hitem⟩, hpushed⟩ := pushed_of_plansSource hplan hnode
  have hsource : s.sources[k]? = some ⟨.table id, on⟩ := by rw [List.getElem?_eq_getElem hlt, hitem]
  refine ⟨⟨on, hsource⟩, fun e he => ?_⟩
  obtain ⟨hcolumns, hconjunct, htarget⟩ := hpushed e he
  exact ⟨hconjunct, (Expr.firstTable_of_pushTarget? htarget).1, fun ref href =>
    Select.binds_iff_unshadowed hneeds hsource hcolumns hconjunct htarget href⟩

/-- `t.a = 1`. -/
def oneInColumn : Expr :=
  .comparison .eq (.field ⟨"t", "a", .integer⟩) (.literal (.integer 1))

/-- `SELECT t.a FROM t, (SELECT t.a AS n FROM t) q, t WHERE t.a = 1 AND q.n = t.a`. -/
def besideQuery : Select where
  items := [⟨.field ⟨"t", "a", .integer⟩, none⟩]
  sources := [⟨.table ⟨0⟩, none⟩,
    ⟨.query ⟨[⟨.field ⟨"t", "a", .integer⟩, some "n"⟩], [⟨.table ⟨0⟩, none⟩], none, [], none, []⟩ "q",
      none⟩, ⟨.table ⟨0⟩, none⟩]
  filter := some (.junction .all [oneInColumn,
    .comparison .eq (.field ⟨"q", "n", .integer⟩) (.field ⟨"t", "a", .integer⟩)])
  groupBy := []
  having := none
  orderBy := []

theorem pushed_bound_besideQuery : ∃ p q, ofSelect oneColumn {} besideQuery = .ok p ∧
    p.sources[0]? = some q ∧ q.node = .tableGet ⟨0⟩ [0] .read [oneInColumn] ∧
      ∀ ref ∈ oneInColumn.fields, besideQuery.Binds oneColumn 0 [0] ref := by
  obtain ⟨p, hplan, hsource⟩ : ∃ p, ofSelect oneColumn {} besideQuery = .ok p ∧
      p.sources[0]? = some (leaf oneColumn (.tableGet ⟨0⟩ [0] .read [oneInColumn])) := ⟨_, rfl, rfl⟩
  obtain ⟨_, _, hscans⟩ := pushed_bound hplan
  obtain ⟨_, hterms⟩ := hscans 0 _ _ _ _ _ hsource rfl
  obtain ⟨_, _, hbinds⟩ := hterms oneInColumn (List.mem_singleton_self _)
  refine ⟨p, _, hplan, hsource, rfl, fun ref href => (hbinds ref href).mpr ?_⟩
  intro _ _ _ _ _ hmem
  exact absurd hmem List.not_mem_nil

/-- `SELECT t.a FROM (SELECT t.a FROM t) t, t WHERE t.a = 1`. -/
def behindQuery : Select where
  items := [⟨.field ⟨"t", "a", .integer⟩, none⟩]
  sources := [⟨.query ⟨[⟨.field ⟨"t", "a", .integer⟩, none⟩], [⟨.table ⟨0⟩, none⟩], none, [], none, []⟩
    "t", none⟩, ⟨.table ⟨0⟩, none⟩]
  filter := some oneInColumn
  groupBy := []
  having := none
  orderBy := []

/-- The name is resolved to the sub-query, and the condition is tested by the scan of the table, which does
not read the column. -/
theorem pushed_unbound_behindQuery : ∃ p q, ofSelect oneColumn {} behindQuery = .ok p ∧
    p.sources[1]? = some q ∧ q.node = .tableGet ⟨0⟩ [] .read [oneInColumn] ∧
      oneInColumn.fields = [⟨"t", "a", .integer⟩] ∧
      (behindQuery.sources.map (ScopeEntry.ofFromItem oneColumn)).findIdx? (·.name == "t") = some 0 ∧
      ¬ behindQuery.Binds oneColumn 1 [] ⟨"t", "a", .integer⟩ := by
  obtain ⟨p, hplan, hsource⟩ : ∃ p, ofSelect oneColumn {} behindQuery = .ok p ∧
      p.sources[1]? = some (leaf oneColumn (.tableGet ⟨0⟩ [] .read [oneInColumn])) := ⟨_, rfl, rfl⟩
  have hfirst : (behindQuery.sources.map (ScopeEntry.ofFromItem oneColumn)).findIdx?
      (·.name == "t") = some 0 := rfl
  refine ⟨p, _, hplan, hsource, rfl, rfl, hfirst, fun hbinds => ?_⟩
  exact absurd (hfirst.symm.trans hbinds.source) (by decide)

end Plan

end SnapshotSql
