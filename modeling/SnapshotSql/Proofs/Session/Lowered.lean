import SnapshotSql.Proofs.Query.Scope
import SnapshotSql.Proofs.Session.Planned
/-! # Lowering planned statements -/

namespace SnapshotSql

mutual

/-- The conjuncts that a query and its sub-queries place one by one. With a single source, WHERE
stays in one piece. -/
def Select.placed : Select → List Expr
  | ⟨_, sources, filter, _, _, _⟩ =>
    (if sources.length = 1 then [] else filter.toList.flatMap Expr.conjuncts) ++ placedIn sources

def Select.placedIn : List FromItem → List Expr
  | [] => []
  | ⟨.table _, _⟩ :: rest => placedIn rest
  | ⟨.query select _, _⟩ :: rest => select.placed ++ placedIn rest

end

/-- The conjuncts that the queries of a statement place one by one. -/
def Statement.placed : Statement → List Expr
  | select query => query.placed
  | explain statement => statement.placed
  | _ => []

/-- There is a result, unless one of the terms is refused because it is no condition. -/
def RefusesOnly {α : Type} (terms : List Expr) (x : Except PlanError α) : Prop :=
  (∃ a, x = .ok a) ∨ ∃ kind, ∃ e ∈ terms, e.isCondition = false ∧
    x = .error (.internal (.notCondition kind e))

namespace RefusesOnly

variable {α β : Type} {terms : List Expr}

theorem ok (a : α) : RefusesOnly terms (.ok a) := .inl ⟨a, rfl⟩

theorem bind {x : Except PlanError α} {f : α → Except PlanError β} (hx : RefusesOnly terms x)
    (hf : ∀ a, RefusesOnly terms (f a)) : RefusesOnly terms (x >>= f) := by
  rcases hx with ⟨a, rfl⟩ | ⟨kind, e, he, hcondition, rfl⟩
  · exact hf a
  · exact .inr ⟨kind, e, he, hcondition, rfl⟩

theorem mono {terms' : List Expr} {x : Except PlanError α} (h : RefusesOnly terms x)
    (hsub : terms ⊆ terms') : RefusesOnly terms' x := by
  rcases h with hok | ⟨kind, e, he, hrefused⟩
  · exact .inl hok
  · exact .inr ⟨kind, e, hsub he, hrefused⟩

theorem checkConditions {kind : NodeKind} {conditions : List Expr}
    (h : ∀ e ∈ conditions, e.isCondition = true ∨ e ∈ terms) :
    RefusesOnly terms (PlanNode.checkConditions kind conditions) := by
  rw [PlanNode.checkConditions]
  cases hfind : conditions.find? fun e => !e.isCondition with
  | none => exact ok ()
  | some e =>
    have hcondition : e.isCondition = false := by simpa using List.find?_some hfind
    rcases h e (List.mem_of_find?_eq_some hfind) with he | he
    · rw [he] at hcondition
      cases hcondition
    · exact .inr ⟨kind, e, he, hcondition, rfl⟩

end RefusesOnly

private theorem ofConjuncts?_cases {es : List Expr} {e : Expr} (h : Expr.ofConjuncts? es = some e) :
    e.isCondition = true ∨ e ∈ es := by
  match es, h with
  | [_], h =>
    cases h
    exact .inr List.mem_cons_self
  | _ :: _ :: _, h =>
    cases h
    exact .inl rfl

namespace Plan

variable {c : Catalog} {policy : ConflictPolicy} {options : PlannerOptions} {terms : List Expr}
  {p q : Plan}

def Lowers (c : Catalog) (policy : ConflictPolicy) (terms : List Expr) (p : Plan) : Prop :=
  RefusesOnly terms (p.lower c policy)

private theorem lowers_over {node : PlanNode} (hp : p.Lowers c policy terms)
    (hnode : ∀ op, RefusesOnly terms (node.toOperator c policy [op])) :
    (build c node [p]).Lowers c policy terms := by
  rw [Lowers, build, lower_over]
  exact hp.bind hnode

private theorem lowers_filtered {condition : Expr} (hp : p.Lowers c policy terms)
    (h : condition.isCondition = true ∨ condition ∈ terms) :
    (filtered c condition p).Lowers c policy terms := by
  refine lowers_over hp fun op => ?_
  have hcheck : RefusesOnly terms (PlanNode.checkConditions .predicate [condition]) := by
    refine .checkConditions fun e he => ?_
    rw [List.mem_singleton.mp he]
    exact h
  exact hcheck.bind fun _ => .ok _

private theorem lowers_scan {table : TableId} {columns : List Nat} {predicates : List Expr}
    (hcolumns : ∀ i ∈ columns, i < (c.table table).schema.width)
    (hpredicates : ∀ e ∈ predicates, e.isCondition = true ∨ e ∈ terms) :
    (leaf c (.tableGet table columns .read predicates)).Lowers c policy terms := by
  have hscan : RefusesOnly terms (TableScan.create c table columns .read predicates policy) :=
    .inl (create_total hcolumns .read predicates policy)
  exact (RefusesOnly.checkConditions hpredicates).bind fun _ => hscan.bind fun _ => .ok _

private theorem lowers_attach {left : Option Plan} {isTable : Bool}
    (hleft : ∀ l, left = some l → l.Lowers c policy terms) (hp : p.Lowers c policy terms) :
    (attach c options isTable left p).Lowers c policy terms := by
  cases left with
  | none => exact hp
  | some l =>
    have hright : (if options.cacheInner && isTable then build c .cached [p] else p).Lowers c policy
        terms := by
      split
      · exact lowers_over hp fun op => .ok _
      · exact hp
    rw [attach, Lowers, build, lower_pair]
    exact (hleft l rfl).bind fun _ => hright.bind fun _ => .ok _

private theorem lowers_applyOn {on : Option Expr} (hp : p.Lowers c policy terms)
    (h : applyOn c on p = .ok q) : q.Lowers c policy terms := by
  cases on with
  | none =>
    cases h
    exact hp
  | some on =>
    obtain ⟨_, hcheck, h⟩ := bind_eq_ok.mp h
    cases h
    exact lowers_filtered hp (.inl (Expr.isCondition_of_check hcheck))

private theorem lowers_ofSourceless {s : Select} (h : ofSourceless c s = .ok p) :
    p.Lowers c policy terms := by
  rw [eq_of_ofSourceless h]
  exact .ok _

private theorem lowers_finish {s : Select} {rest : List Expr} (hp : p.Lowers c policy terms)
    (hrest : ∀ e ∈ rest, e.isCondition = true ∨ e ∈ terms) (h : finish c s rest p = .ok q) :
    q.Lowers c policy terms := by
  refine finish_induction h hp (fun condition hcondition hp => lowers_filtered hp ?_)
    (fun _ hp => lowers_over hp fun _ => .ok _) (fun hp => lowers_over hp fun _ => .ok _)
    fun hp => lowers_over hp fun _ => .ok _
  rcases hcondition with hleft | hhaving
  · rcases ofConjuncts?_cases hleft with h | h
    · exact .inl h
    · exact hrest condition h
  · exact .inl hhaving

/-! ## Parts of the sources -/

def PartsFit (c : Catalog) (terms : List Expr) (parts : List (List Nat × List Expr))
    (sources : List FromItem) : Prop :=
  ∀ (k : Nat) (part : List Nat × List Expr), parts[k]? = some part →
    (∀ e ∈ part.2, e.isCondition = true ∨ e ∈ terms) ∧
    ∀ id on, sources[k]? = some ⟨.table id, on⟩ → ∀ i ∈ part.1, i < (c.table id).schema.width

private theorem partsFit_tail {parts : List (List Nat × List Expr)} {source : FromItem}
    {sources : List FromItem} (h : PartsFit c terms parts (source :: sources)) :
    PartsFit c terms parts.tail sources := by
  intro k part hk
  rw [List.getElem?_tail] at hk
  exact h (k + 1) part hk

/-- What a query splits its WHERE into is fit for its sources and for the filter above them. -/
private theorem fit_splitFilter {sources : List FromItem} {filter : Option Expr} {needs : Needs}
    (hfilter : checkFilter filter = .ok ())
    (hneeds : needs.Within (sources.map (ScopeEntry.ofFromItem c)))
    (hterms : sources.length ≠ 1 → filter.toList.flatMap Expr.conjuncts ⊆ terms) :
    let split := splitFilter (sources.map (ScopeEntry.ofFromItem c)) filter
    PartsFit c terms (needs.zip split.pushed) sources ∧
      ∀ e ∈ split.rest, e.isCondition = true ∨ e ∈ terms := by
  intro split
  have hcolumns : ∀ (k : Nat) columns id on, needs[k]? = some columns →
      sources[k]? = some ⟨.table id, on⟩ → ∀ i ∈ columns, i < (c.table id).schema.width := by
    intro k columns id on hk hsource i hi
    refine TableSchema.lt_width_of_first
      (hneeds k columns (.ofFromItem c ⟨.table id, on⟩) _ hk ?_ rfl i hi)
    rw [List.getElem?_map, hsource]
    rfl
  have hpart : ∀ (k : Nat) part, split.pushed[k]? = some part → ∀ e ∈ part, e ∈ terms := by
    intro k part hk e he
    by_cases hlength : sources.length = 1
    · rw [show split = _ from splitFilter_single filter (by rwa [List.length_map]),
        List.getElem?_map, Option.map_eq_some_iff] at hk
      obtain ⟨_, _, rfl⟩ := hk
      cases he
    · rw [pushed_splitFilter filter (by rwa [List.length_map]), Option.map_eq_some_iff] at hk
      obtain ⟨_, _, rfl⟩ := hk
      exact hterms hlength (List.mem_of_mem_filter he)
  have hrest : ∀ e ∈ split.rest, e.isCondition = true ∨ e ∈ terms := by
    intro e he
    by_cases hlength : sources.length = 1
    · rw [show split = _ from splitFilter_single filter (by rwa [List.length_map]),
        Option.mem_toList] at he
      rw [he] at hfilter
      obtain ⟨_, hcheck, _⟩ := bind_eq_ok.mp hfilter
      exact .inl (Expr.isCondition_of_check hcheck)
    · rw [rest_splitFilter filter (by rwa [List.length_map])] at he
      exact .inr (hterms hlength (List.mem_of_mem_filter he))
  refine ⟨?_, hrest⟩
  intro k part hk
  obtain ⟨hk₁, hk₂⟩ := List.getElem?_zip_eq_some.mp hk
  exact ⟨fun e he => .inr (hpart k part.2 hk₂ e he), fun id on => hcolumns k part.1 id on hk₁⟩

mutual

private theorem lowers_ofSelect : ∀ (s : Select) {p : Plan}, ofSelect c options s = .ok p →
    p.Lowers c policy s.placed
  | ⟨items, sources, filter, groupBy, having, orderBy⟩, p, h => by
    rw [ofSelect] at h
    split at h
    · cases h
    · simp only at h
      split at h
      · exact lowers_ofSourceless h
      · obtain ⟨needs, hneeds, h⟩ := bind_eq_ok.mp h
        obtain ⟨_, hfilter, h⟩ := bind_eq_ok.mp h
        obtain ⟨joined, hjoined, h⟩ := bind_eq_ok.mp h
        have hterms : sources.length ≠ 1 → filter.toList.flatMap Expr.conjuncts ⊆
            Select.placed ⟨items, sources, filter, groupBy, having, orderBy⟩ := by
          intro hlength
          rw [Select.placed, if_neg hlength]
          exact List.subset_append_left _ _
        obtain ⟨hparts, hrest⟩ := fit_splitFilter hfilter (Select.within_resolve hneeds) hterms
        cases joined with
        | none => exact lowers_ofSourceless h
        | some joins =>
          refine lowers_finish ?_ hrest h
          exact lowers_ofSources sources (List.subset_append_right _ _) hparts (fun l hl => by cases hl)
            hjoined joins rfl

private theorem lowers_ofSources : ∀ (sources : List FromItem) {left out : Option Plan}
    {parts : List (List Nat × List Expr)} {terms : List Expr}, Select.placedIn sources ⊆ terms →
    PartsFit c terms parts sources → (∀ l, left = some l → l.Lowers c policy terms) →
    ofSources c options left parts sources = .ok out →
    ∀ p, out = some p → p.Lowers c policy terms
  | [], left, out, parts, terms, _, _, hleft, h => by
    rw [ofSources] at h
    cases h
    exact hleft
  | ⟨.table id, on⟩ :: rest, left, out, parts, terms, hterms, hparts, hleft, h => by
    rw [ofSources] at h
    obtain ⟨plan, hplan, h⟩ := bind_eq_ok.mp h
    have hscan : (leaf c (.tableGet id (parts.head?.getD ([], [])).1 .read
        (parts.head?.getD ([], [])).2)).Lowers c policy terms := by
      cases parts with
      | nil => exact lowers_scan nofun nofun
      | cons part parts =>
        obtain ⟨hpredicates, hcolumns⟩ := hparts 0 part rfl
        exact lowers_scan (hcolumns id on rfl) hpredicates
    have hlowers := lowers_applyOn (lowers_attach hleft hscan) hplan
    exact lowers_ofSources rest hterms (partsFit_tail hparts)
      (fun l hl => Option.some.inj hl ▸ hlowers) h
  | ⟨.query select qualifier, on⟩ :: rest, left, out, parts, terms, hterms, hparts, hleft, h => by
    rw [ofSources] at h
    obtain ⟨inner, hinner, h⟩ := bind_eq_ok.mp h
    obtain ⟨plan, hplan, h⟩ := bind_eq_ok.mp h
    rw [Select.placedIn] at hterms
    obtain ⟨hselect, hrest⟩ := List.append_subset.mp hterms
    have hinner : inner.Lowers c policy terms := (lowers_ofSelect select hinner).mono hselect
    have hquery : (build c (.subQuery qualifier) [inner]).Lowers c policy terms :=
      lowers_over hinner fun op => .ok _
    have hlowers := lowers_applyOn (lowers_attach hleft hquery) hplan
    exact lowers_ofSources rest hrest (partsFit_tail hparts)
      (fun l hl => Option.some.inj hl ▸ hlowers) h

end

/-- A planned statement has operators, unless a conjunct that is placed by itself is no condition. -/
theorem lower_ofStatement {stmt : Statement} (h : ofStatement c options stmt = .ok p) :
    (∃ op, p.lower c policy = .ok op) ∨ ∃ kind, ∃ e ∈ stmt.placed, e.isCondition = false ∧
      p.lower c policy = .error (.internal (.notCondition kind e)) := by
  show p.Lowers c policy stmt.placed
  induction stmt generalizing p with
  | compute exprs => cases h; exact .ok _
  | select query => exact lowers_ofSelect query h
  | insert table records => cases h; exact .ok _
  | delete table filter =>
    obtain ⟨scan, hscan, h⟩ := bind_eq_ok.mp h
    cases h
    exact lowers_over (.inl ⟨_, lower_writeScan hscan⟩) fun op => .ok _
  | update table sets filter =>
    obtain ⟨targets, _, h⟩ := bind_eq_ok.mp h
    obtain ⟨scan, hscan, h⟩ := bind_eq_ok.mp h
    cases h
    exact lowers_over (.inl ⟨_, lower_writeScan hscan⟩) fun op => .ok _
  | explain stmt ih =>
    obtain ⟨plan, hplan, h⟩ := bind_eq_ok.mp h
    cases h
    exact lowers_over (ih hplan) fun op => .ok _
  | createTable name columns => cases h; exact .ok _
  | renameTable table newName => cases h; exact .ok _
  | _ => cases h

def twoColumns : Catalog where
  tables := #[.empty ⟨"t", [⟨"a", .integer, true⟩]⟩, .empty ⟨"u", [⟨"b", .integer, true⟩]⟩]
  entries := [("t", ⟨0⟩), ("u", ⟨1⟩)]

/-- The pairs of rows that agree with 1 and satisfy a further term. -/
def pairsWith (term : Expr) : Statement := .select {
  items := [⟨.field ⟨"t", "a", .integer⟩, none⟩]
  sources := [⟨.table ⟨0⟩, none⟩, ⟨.table ⟨1⟩, none⟩]
  filter := some (.junction .all
    [term, .comparison .eq (.field ⟨"t", "a", .integer⟩) (.literal (.integer 1))])
  groupBy := []
  having := none
  orderBy := [] }

theorem lower_ofStatement_pairs :
    ∃ p, ofStatement twoColumns {} (pairsWith (.literal (.boolean true))) = .ok p ∧
      ((∃ op, p.lower twoColumns .absorbUnmatched = .ok op) ∨
        ∃ kind, ∃ e ∈ (pairsWith (.literal (.boolean true))).placed, e.isCondition = false ∧
          p.lower twoColumns .absorbUnmatched = .error (.internal (.notCondition kind e))) :=
  ⟨_, rfl, lower_ofStatement rfl⟩

/-- A number that stands among the terms of a WHERE is planned but not lowered. -/
theorem lower_numberTerm : ∃ p, ofStatement twoColumns {} (pairsWith (.literal (.integer 5))) = .ok p ∧
    p.lower twoColumns .absorbUnmatched =
      .error (.internal (.notCondition .predicate (.literal (.integer 5)))) :=
  ⟨_, rfl, rfl⟩

end Plan

end SnapshotSql
